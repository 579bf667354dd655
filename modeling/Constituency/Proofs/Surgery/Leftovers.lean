import Constituency.Proofs.Surgery.Adjoined
import Constituency.Proofs.Surgery.Enclosing
import Constituency.Proofs.Surgery.Instances
import Constituency.Proofs.Surgery.Process
import Constituency.Proofs.Surgery.Unresolved

/-!
# What an operation that is given up leaves behind

Operations look for everything that can stand against them before they make anything, so that one
that is given up has left the application as it was (`Step.Stays`). For a template is the last thing
that is made, and after it nothing is refused.

`replace` alone is different. It makes its operands one after the other, each of which can lack a
name, and not before all of them have been made does it turn out whether the root is to give its
place to one node. What has been made by then is not taken back: the names that its templates
declare have nodes from then on, which lie detached in the arena (`Operation.leftNames`). Later
operations find them, and so does a guard.
-/

namespace Constituency

open Constituency.Tree Constituency.Surgery

/-! ## Operands that can be made -/

namespace Operand

/-- The names that an operand declares. -/
def declaredNames : Operand → List String
  | copyOf _ => []
  | made template => template.declaredNames

/-- Whether an operand can be made where some names have nodes. -/
def isMakeable (has : String → Bool) : Operand → Bool
  | copyOf name => has name
  | made template => template.tree.isSome && template.askedNames.all has

/-- The operands that are made when they are made one after the other: those before the first that
is an empty template, or that asks for a name that has no node and that no operand before it
declares. -/
def makeable (has : String → Bool) : List Operand → List Operand
  | [] => []
  | o :: os =>
    if o.isMakeable has then
      o :: makeable (fun name => has name || o.declaredNames.contains name) os
    else []

end Operand

namespace Surgery

variable {s u v : Surgery} {names more : List String}

/-- Whether a name has a node. -/
def has (s : Surgery) (name : String) : Bool := (s.node? name).isSome

/-- Some names have new nodes, and all others have the nodes that they had. -/
structure Adds (s : Surgery) (names : List String) (u : Surgery) : Prop where
  kept : ∀ name ∉ names, u.node? name = s.node? name
  new : ∀ name ∈ names, ∃ id, u.node? name = some id ∧ s.tree.nodes.size ≤ id

theorem Adds.of_same (h : ∀ name, u.node? name = s.node? name) : s.Adds [] u :=
  ⟨fun name _ => h name, fun _ hname => absurd hname (by simp)⟩

theorem Adds.refl (s : Surgery) : s.Adds [] s := .of_same fun _ => rfl

theorem Adds.trans (hsu : s.Adds names u) (huv : u.Adds more v)
    (hsize : s.tree.nodes.size ≤ u.tree.nodes.size) : s.Adds (names ++ more) v := by
  refine ⟨fun name hname => ?_, fun name hname => ?_⟩
  · rw [List.mem_append, not_or] at hname
    rw [huv.kept name hname.2, hsu.kept name hname.1]
  · by_cases hmore : name ∈ more
    · obtain ⟨id, hid, hge⟩ := huv.new name hmore
      exact ⟨id, hid, Nat.le_trans hsize hge⟩
    · obtain ⟨id, hid, hge⟩ := hsu.new name ((List.mem_append.mp hname).resolve_right hmore)
      exact ⟨id, (huv.kept name hmore).trans hid, hge⟩

/-- The names that have nodes are those that had some and those that were added. -/
theorem Adds.has_eq (h : s.Adds names u) (name : String) :
    u.has name = (s.has name || names.contains name) := by
  rw [has, has]
  by_cases hname : name ∈ names
  · obtain ⟨id, hid, _⟩ := h.new name hname
    rw [hid, List.contains_iff_mem.mpr hname, Bool.or_true, Option.isSome_some]
  · rw [h.kept name hname, List.contains_eq_mem, decide_eq_false hname, Bool.or_false]

/-- A new node is none that a name had. -/
theorem Adds.ne (h : s.Adds names u) (hs : s.NamesKnown) {name : String} (hname : name ∈ names) :
    u.node? name ≠ s.node? name := by
  obtain ⟨id, hid, hge⟩ := h.new name hname
  rw [hid]
  exact fun hsame => absurd (hs name id hsame.symm) (Nat.not_lt.mpr hge)

/-- As long as the arena has the nodes of the names, what a name stands for is found exactly if it
has a node. -/
theorem NamesKnown.fetchConstituent_cases (h : s.NamesKnown) (name : String) :
    ((∃ c, s.fetchConstituent name = .ok c) ∧ s.has name = true) ∨
      ((∃ e, s.fetchConstituent name = .error e) ∧ s.has name = false) := by
  rw [has]
  cases hfetch : s.fetch name with
  | ok id =>
    have hfound := fetchConstituent_eq_ok_iff.mpr ⟨id, hfetch, rfl⟩
    exact .inl ⟨⟨_, hfound⟩, by rw [(fetch_eq_ok_iff.mp hfetch).1]; rfl⟩
  | error e =>
    refine .inr ⟨⟨e, fetchConstituent_eq_error_iff.mpr hfetch⟩, ?_⟩
    rcases fetch_eq_error_iff.mp hfetch with ⟨hnone, _⟩ | ⟨id, hid, hunknown, _⟩
    · rw [hnone]
      rfl
    · exact absurd (h name id hid) hunknown

/-- A template that has been made gives new nodes to the names that it declares, and to no
others. -/
theorem adds_plant {template : Template} (hread : template.IsRead) {slots : Rose Slot}
    (htree : template.tree = some slots) {filled : Rose (Label × Option Slot)}
    (hfill : slots.fill s.fetchConstituent = .ok filled) :
    s.Adds template.declaredNames (s.plant filled) := by
  have hkeys := Template.map_fst_namesIn hread.isMarked htree hfill s.tree.nodes.size
  refine ⟨fun name hname => Template.node?_plant (by rwa [hkeys]), fun name hname => ?_⟩
  rw [← hkeys, List.mem_map] at hname
  obtain ⟨⟨name, id⟩, hentry, rfl⟩ := hname
  obtain ⟨cs, hparse⟩ := hread
  have hlookup := Template.lookup_eq_some_of_mem
    (by rw [hkeys]; exact Template.nodup_declaredNames hparse) hentry
  obtain ⟨⟨made, x⟩, hmade, hx⟩ := List.mem_filterMap.mp hentry
  obtain ⟨_, _, hpair⟩ := Option.map_eq_some_iff.mp hx
  obtain ⟨rfl, rfl⟩ := Prod.mk.inj hpair
  exact ⟨x, node?_of_created (lookup_plant hlookup), List.le_snd_of_mem_zipIdx hmade⟩

end Surgery

namespace Step

variable {α β : Type} {s : Surgery}

/-! ## Making operands -/

section instantiate

variable {template : Template}

/-- A template is not made if a hole cannot be filled. -/
theorem instantiate_error {slots : Rose Slot} (htree : template.tree = some slots) {e : Obstacle}
    (hfill : slots.fill s.fetchConstituent = .error e) :
    Ends (instantiate template) s (fun _ _ => False) fun _ u => u = s := by
  unfold instantiate
  rw [htree]
  refine Ends.get_bind ?_
  rw [hfill]
  rfl

theorem instantiate_adds (hread : template.IsRead) (hs : s.NamesKnown) :
    Ends (instantiate template) s
      (fun _ u => (Operand.made template).isMakeable s.has = true ∧
        s.Adds template.declaredNames u)
      fun _ u => (Operand.made template).isMakeable s.has = false ∧ u = s := by
  rw [Operand.isMakeable]
  cases htree : template.tree with
  | none =>
    unfold instantiate
    rw [htree]
    exact Ends.of_throw ⟨rfl, rfl⟩
  | some slots =>
    obtain ⟨c, rfl⟩ := hread.isMarked.exists_mark htree
    rw [Option.isSome_some, Bool.true_and, Template.askedNames, Template.slots, htree]
    cases hfill : (Template.mark c).fill s.fetchConstituent with
    | ok filled =>
      rw [← bind_pure (instantiate template)]
      refine ends_instantiate htree hfill (Ends.of_pure ⟨?_, adds_plant hread htree hfill⟩)
      refine List.all_eq_true.mpr fun name hname => ?_
      obtain ⟨d, hd⟩ := Template.asked_of_fill c hfill name hname
      rcases hs.fetchConstituent_cases name with ⟨_, hsome⟩ | ⟨⟨e, he⟩, _⟩
      · exact hsome
      · exact absurd (hd.symm.trans he) (by simp)
    | error e =>
      refine (instantiate_error htree hfill).mono (fun _ _ h => h.elim) fun _ u hu => ⟨?_, hu⟩
      obtain ⟨name, hname, he⟩ := Rose.fill_error _ hfill
      rcases hs.fetchConstituent_cases name with ⟨⟨d, hd⟩, _⟩ | ⟨_, hnone⟩
      · exact absurd (hd.symm.trans he) (by simp)
      · exact List.all_eq_false.mpr ⟨name, hname, by simp [hnone]⟩

end instantiate

/-- **An operand** is made, and the names that it declares get new nodes, or nothing has changed. -/
theorem make_adds {o : Operand} (hread : ∀ t, o = .made t → t.IsRead) (hs : s.NamesKnown) :
    Ends (make o) s
      (fun _ u => o.isMakeable s.has = true ∧ s.Adds o.declaredNames u)
      fun _ u => o.isMakeable s.has = false ∧ u = s := by
  cases o with
  | copyOf name =>
    refine Ends.get_bind ?_
    rw [Operand.isMakeable]
    rcases hs.fetchConstituent_cases name with ⟨⟨c, hc⟩, hsome⟩ | ⟨⟨e, he⟩, hnone⟩
    · rw [hc]
      exact ⟨hsome, .of_same fun _ => rfl⟩
    · rw [he]
      exact ⟨hnone, rfl⟩
  | made template =>
    refine (instantiate_adds (hread template rfl) hs).bind ?_ fun _ _ h => h
    exact fun _ _ h => Ends.of_pure h

/-- **Operands**, one after the other: whatever it comes to, the names of those that could be made
have got new nodes. -/
theorem makeAll_adds {os : List Operand} (hread : ∀ t, .made t ∈ os → t.IsRead)
    (h : s.tree.WellFormed) (hs : s.NamesKnown) :
    let names := (Operand.makeable s.has os).flatMap Operand.declaredNames
    Ends (makeAll os) s (fun _ u => s.Adds names u) fun _ u => s.Adds names u := by
  induction os generalizing s with
  | nil => exact Ends.of_pure (.refl s)
  | cons o os ih =>
    intro names
    have hfirst := (make_adds (fun t ht => hread t (ht ▸ List.mem_cons_self ..)) hs).and
      (make_prepares o h)
    refine hfirst.bind ?_ fun _ u hu => ?_
    · rintro id u ⟨⟨hmakeable, hadds⟩, hprepared, _⟩
      have hhas : u.has = fun name => s.has name || o.declaredNames.contains name :=
        funext hadds.has_eq
      have hrest := ih (fun t ht => hread t (List.mem_cons_of_mem o ht))
        (wellFormed_of_prepared hprepared h) (hprepared.names hs)
      rw [hhas] at hrest
      have hnames : names = o.declaredNames ++ (Operand.makeable
          (fun name => s.has name || o.declaredNames.contains name) os).flatMap
            Operand.declaredNames := by
        show List.flatMap _ (Operand.makeable _ (o :: os)) = _
        rw [Operand.makeable, if_pos hmakeable, List.flatMap_cons]
      rw [hnames]
      refine hrest.bind (fun _ v hv => Ends.of_pure ?_) fun _ v hv => ?_
      · exact hadds.trans hv hprepared.grown.size_le
      · exact hadds.trans hv hprepared.grown.size_le
    · obtain ⟨⟨hnot, rfl⟩, _⟩ := hu
      have hnames : names = [] := by
        show List.flatMap _ (Operand.makeable _ (o :: os)) = _
        rw [Operand.makeable, if_neg (by simp [hnot]), List.flatMap_nil]
      rw [hnames]
      exact .refl u

/-! ## Steps that leave nothing behind -/

/-- A step that leaves the application as it was unless it is carried out. -/
def Stays (x : Step α) (s : Surgery) : Prop := Ends x s (fun _ _ => True) fun _ u => u = s

theorem ofExcept_stays {r : Except Obstacle α} {rest : α → Step β}
    (hrest : ∀ a, r = .ok a → Stays (rest a) s) : Stays (ofExcept r >>= rest) s := by
  cases r with
  | ok a => exact hrest a rfl
  | error e => exact (rfl : s = s)

theorem fetch_stays {name : String} {rest : NodeId → Step β}
    (hrest : ∀ id, s.fetch name = .ok id → Stays (rest id) s) : Stays (fetch name >>= rest) s := by
  cases hfetch : s.fetch name with
  | ok id => exact ends_fetch hfetch (hrest id hfetch)
  | error e => exact ends_fetch_error hfetch rfl

theorem ask_stays {question : Tree → Except Refusal α} {rest : α → Step β}
    (hrest : ∀ a, question s.tree = .ok a → Stays (rest a) s) :
    Stays (ask question >>= rest) s := by
  cases hask : question s.tree with
  | ok a => exact ends_ask hask (hrest a hask)
  | error e => exact ends_ask_error hask rfl

theorem require_stays {reason : Refusal} {condition : Tree → Bool} {rest : Unit → Step β}
    (hrest : condition s.tree = true → Stays (rest ()) s) :
    Stays (require reason condition >>= rest) s := by
  refine ask_stays fun _ hask => hrest ?_
  by_contra hnot
  rw [if_neg hnot] at hask
  exact absurd hask (by simp)

/-- An edit that is refused has done nothing. -/
theorem edit_stays {change : Edit α} (h : change.Sound s.tree) : Stays (edit change) s := by
  unfold Edit.Sound Ends at h
  refine Ends.get_bind ?_
  rcases hrun : change.run.run s.tree with ⟨_ | a, tree⟩
  · rw [hrun] at h
    obtain ⟨rfl, _⟩ := h
    exact (rfl : s = s)
  · trivial

theorem insert_stays {operand : Operand} (place : Place) (h : s.tree.WellFormed)
    (hs : s.NamesKnown) (hread : ∀ t, operand = .made t → t.IsRead) :
    Stays (do
      let anchor ← fetch place.anchor
      let (parent, index) ← ask (·.locate place anchor none)
      let id ← make operand
      edit (.insert parent index id)) s := by
  refine fetch_stays fun anchor _ => ask_stays fun found hfound => ?_
  refine ((make_adds hread hs).and (make_prepares operand h)).bind ?_ fun _ _ hu => hu.1.2
  rintro id u ⟨_, hu, hid⟩
  exact ends_last_edit (Edit.ends_perform (Edit.isKnown_insertChild
    (lt_size_of_prepared hu (locate_known h hfound)) hid found.2) trivial)

section footed

variable {template : Template} (h : s.tree.WellFormed) (hread : template.IsRead)
  (hfoot : template.foot?.isSome = true)

include hread hfoot

/-- A template with a foot can be made, or else nothing has changed. -/
theorem instance_or_stays : (∃ filled foot, template.Instance s filled foot) ∨
    ∀ {rest : NodeId × NodeId → Step Unit}, Stays (instantiateWithFoot template >>= rest) s := by
  obtain ⟨cs, hparse⟩ := hread
  cases htree : template.tree with
  | none =>
    rw [Template.foot?, Template.slots, htree] at hfoot
    exact absurd hfoot (by simp)
  | some slots =>
    cases hfill : slots.fill s.fetchConstituent with
    | ok filled => exact .inl ⟨filled, Template.instance_of_fill hparse hfoot htree hfill⟩
    | error e =>
      have hfailed : Ends (instantiateWithFoot template) s (fun _ _ => False) fun _ u => u = s :=
        (instantiate_error htree hfill).bind (fun _ _ h => h.elim) fun _ _ h => h
      exact .inr (hfailed.bind (fun _ _ h => h.elim) fun _ _ h => h)

include h

theorem adjoin_stays (mode : AdjunctionMode) (target : NodeId) :
    Stays (adjoin mode template target) s := by
  rcases instance_or_stays (s := s) hread hfoot with ⟨filled, foot, hinst⟩ | hstays
  · by_cases htarget : s.tree.isAttached target = true
    · exact (ends_adjoin h hinst htarget mode).mono (fun _ _ _ => trivial) fun _ _ h => h.elim
    · exact require_stays fun hattached => absurd hattached htarget
  · exact require_stays fun _ => hstays

theorem enclose_stays (first : NodeId) (last : Option NodeId) :
    Stays (enclose template first last) s := by
  rcases instance_or_stays (s := s) hread hfoot with ⟨filled, foot, hinst⟩ | hstays
  · by_cases hlast : ∀ b, last = some b → b = first ∨
        ∃ p, s.tree.parent first = some p ∧ s.tree.parent b = some p
    · by_cases hfirst : s.tree.isAttached first = true
      · exact (ends_enclose h hinst hfirst last hlast).mono (fun _ _ _ => trivial)
          fun _ _ h => h.elim
      · exact require_stays fun hattached => absurd hattached hfirst
    · -- the two ends are no sisters
      push Not at hlast
      obtain ⟨b, rfl, hne, hno⟩ := hlast
      refine require_stays fun _ => ?_
      rw [Option.filter_some, if_pos (bne_iff_ne.mpr hne)]
      refine ask_stays fun span hspan => ?_
      obtain ⟨p, hp, hb⟩ := sisters_of_sistersBetween hspan
      exact absurd hb (hno p hp)
  · refine require_stays fun _ => ?_
    split
    · exact hstays
    · exact ask_stays fun _ _ => hstays

end footed

end Step

/-! ## Operations -/

namespace Surgery

variable {s : Surgery}

theorem attempt_of_stays (keyword : String) {step : Step Unit} (h : step.Stays s)
    (hreports : (s.attempt keyword step).2 ≠ []) : (s.attempt keyword step).1 = s := by
  rcases attempt_cases keyword h with ⟨u, hattempt, _⟩ | ⟨o, u, hattempt, rfl⟩
  · exact absurd (congrArg Prod.snd hattempt) hreports
  · rw [hattempt]

end Surgery

namespace Operation

variable {s : Surgery}

/-- The names that an operation gives new nodes to if it is given up: those of the operands that a
replacement of an attached node can make one after the other. -/
def leftNames (s : Surgery) : Operation → List String
  | replace name operands =>
    if (s.node? name).any s.tree.isAttached then
      (Operand.makeable s.has operands).flatMap Operand.declaredNames
    else []
  | ifExists _ _ guarded => guarded.leftNames s
  | _ => []

theorem replace_adds (name : String) {operands : List Operand}
    (hread : ∀ t, .made t ∈ operands → t.IsRead) (h : s.tree.WellFormed) (hs : s.NamesKnown) :
    Ends (do
      let id ← Step.fetch name
      Step.require .nodeNotAttached (·.isAttached id)
      let made ← Step.makeAll operands
      Step.edit (.putInPlace id made)) s (fun _ _ => True)
      fun _ u => s.Adds ((replace name operands).leftNames s) u := by
  rw [leftNames]
  cases hfetch : s.fetch name with
  | error e =>
    have hnone : s.node? name = none := by
      rcases fetch_eq_error_iff.mp hfetch with ⟨hnone, _⟩ | ⟨id, hid, hunknown, _⟩
      · exact hnone
      · exact absurd (hs name id hid) hunknown
    rw [hnone]
    exact Step.ends_fetch_error hfetch (.refl s)
  | ok id =>
    rw [(fetch_eq_ok_iff.mp hfetch).1, Option.any_some]
    refine Step.ends_fetch hfetch ?_
    by_cases hattached : s.tree.isAttached id = true
    · rw [if_pos hattached]
      have hmade := (Step.makeAll_adds hread h hs).and (Step.makeAll_prepares operands h)
      refine Step.ends_require hattached (hmade.bind ?_ fun _ _ hu => hu.1)
      rintro ids u ⟨hadds, hu, hids⟩
      have hput : (Edit.putInPlace id ids).Sound u.tree :=
        Edit.putInPlace_sound (Step.wellFormed_of_prepared hu h) hids
      -- if the place is refused, what has been made stays
      exact (Step.edit_stays hput).mono (fun _ _ h => h) fun _ v hv => hv ▸ hadds
    · rw [if_neg hattached]
      exact Step.ends_ask_error (if_neg hattached) (.refl s)

/-- **An operation that is given up** has left the names alone, apart from those that it leaves. -/
theorem runAs_adds (keyword : String) (marks : Marks) (o : Operation) (hatomic : o.isAtomic = true)
    (hformed : o.IsFormed) (h : s.tree.WellFormed) (hs : s.NamesKnown)
    (hreports : (o.runAs keyword marks s).2 ≠ []) :
    s.Adds (o.leftNames s) (o.runAs keyword marks s).1 := by
  have hstays : ∀ {step : Step Unit}, step.Stays s → (s.attempt keyword step).2 ≠ [] →
      s.Adds [] (s.attempt keyword step).1 := fun hstep hne => by
    rw [attempt_of_stays keyword hstep hne]
    exact .refl s
  induction o with
  | delete names => exact absurd hatomic (by simp [isAtomic])
  | prune names => exact absurd hatomic (by simp [isAtomic])
  | coindex names => exact absurd hatomic (by simp [isAtomic])
  | ifExists name negated guarded ih =>
    rw [runAs] at hreports ⊢
    split at hreports
    · rename_i hon
      rw [if_pos hon]
      exact ih hatomic ⟨hformed.read, hformed.footed⟩ hreports
    · exact absurd rfl hreports
  | excise top bottom =>
    exact hstays (Step.fetch_stays fun top htop => Step.fetch_stays fun bottom hbottom =>
      Step.edit_stays (Edit.excise_sound h (fetch_eq_ok_iff.mp htop).2
        (fetch_eq_ok_iff.mp hbottom).2)) hreports
  | relabel name how =>
    refine hstays (Step.fetch_stays fun id hid => Ends.get_bind ?_) hreports
    exact Step.ofExcept_stays fun label _ =>
      Step.edit_stays (Edit.relabel_sound (fetch_eq_ok_iff.mp hid).2 label)
  | insert operand place =>
    exact hstays (Step.insert_stays place h hs fun t ht =>
      hformed.read t (mem_templates_insert.mpr ht)) hreports
  | move name place =>
    refine hstays (Step.fetch_stays fun id hid => Step.fetch_stays fun anchor _ =>
      Step.ask_stays fun _ _ => Step.ask_stays fun found hfound => ?_) hreports
    exact Step.edit_stays (Edit.move_sound h (fetch_eq_ok_iff.mp hid).2 (locate_known h hfound)
      found.2)
  | replace name operands =>
    have hstep := replace_adds name
      (fun t ht => hformed.read t (mem_templates_replace.mpr ht)) h hs
    rcases attempt_cases keyword hstep with ⟨u, hattempt, _⟩ | ⟨e, u, hattempt, hu⟩
    · exact absurd (congrArg Prod.snd hattempt) hreports
    · rw [runAs, hattempt]
      exact hu
  | adjoin mode template target =>
    have htemplate := List.mem_singleton_self template
    exact hstays (Step.fetch_stays fun id _ => Step.adjoin_stays h (hformed.read _ htemplate)
      (hformed.footed rfl _ htemplate) mode id) hreports
  | createSubtree template first last =>
    have htemplate := List.mem_singleton_self template
    have henclose : ∀ first last, (Step.enclose template first last).Stays s :=
      Step.enclose_stays h (hformed.read _ htemplate) (hformed.footed rfl _ htemplate)
    refine hstays (Step.fetch_stays fun first' _ => ?_) hreports
    cases last with
    | none => exact henclose first' none
    | some last =>
      have hlast : ((some last).mapM Step.fetch : Step (Option NodeId)) = do
          let id ← Step.fetch last
          return some id := rfl
      rw [hlast, bind_assoc]
      exact Step.fetch_stays fun last' _ => henclose first' (some last')

end Operation

/-! ## Scripts -/

namespace Script

variable {s : Script}

/-- A script that was read, for the matches of a pattern or for any. -/
def IsRead (s : Script) : Prop :=
  ∃ known, ScriptReader.operations s.source.toList known = .ok s.operations

theorem isRead_of_parse {text : String} (h : parse text = .ok s) : s.IsRead := by
  obtain ⟨os, hos, h⟩ := bind_eq_ok.mp h
  obtain rfl := Except.ok.inj h
  exact ⟨none, hos⟩

theorem isRead_of_parseFor {p : Pattern} {text : String} (h : parseFor p text = .ok s) :
    s.IsRead := by
  obtain ⟨os, hos, h⟩ := bind_eq_ok.mp h
  obtain rfl := Except.ok.inj h
  exact ⟨some p.captureNames, hos⟩

theorem IsRead.formed (h : s.IsRead) {i : Nat} {o : Operation} (ho : s.operations[i]? = some o) :
    o.IsFormed := by
  obtain ⟨known, hos⟩ := h
  unfold ScriptReader.operations at hos
  split at hos
  · exact absurd hos (by simp)
  · exact (ScriptReader.readOperations_ok hos ho).1

/-- **What the names stand for after an operation that was given up.**

Let a script that was read be applied to a match of the arena, and let one of its operations, other
than `delete`, `prune` and `coindex`, report anything under any guards. Then the names that resolve
otherwise when the turn of the next operation comes are exactly those that the operation leaves
(`Operation.leftNames`). They have nodes that the arena did not have before. An operation that is no
replacement leaves none, and a replacement leaves those that are declared by the templates among its
operands up to the first operand that cannot be made. -/
theorem names_left (hs : s.IsRead) {t : Tree} (ht : t.WellFormed) {m : Match}
    (hm : m.Known t.nodes.size) {i : Nat} {o : Operation} (ho : s.operations[i]? = some o)
    (hatomic : o.isAtomic = true) (hreports : s.reportsOf t m i ≠ []) :
    (∀ name, (s.before t m (i + 1)).node? name = (s.before t m i).node? name ↔
      name ∉ o.leftNames (s.before t m i)) ∧
    ∀ name ∈ o.leftNames (s.before t m i), ∃ id, (s.before t m (i + 1)).node? name = some id ∧
      (s.before t m i).tree.arenaSize ≤ id := by
  have hran := Operation.runAll_ran s.marks (s.operations.take i) (s := ⟨t, m, []⟩) ht
  have hknown : (s.before t m i).NamesKnown := hran.continued.names fun name id hid => hm.node hid
  rw [reportsOf_eq ho] at hreports
  have hadds : (s.before t m i).Adds (o.leftNames (s.before t m i)) (s.before t m (i + 1)) := by
    rw [before_succ ho]
    exact Operation.runAs_adds o.keyword s.marks o hatomic (hs.formed ho) (hran.wellFormed ht)
      hknown hreports
  refine ⟨fun name => ⟨fun hsame hname => hadds.ne hknown hname hsame, hadds.kept name⟩, hadds.new⟩

/-- In `(S a)` the root cannot give its place to the two nodes that are made for it. -/
theorem exists_replaced_root :
    let t := Tree.ofConstituent (some (.node "S" [.node "a" []]))
    let m : Match := ⟨0, [some 0], ["s"]⟩
    ∃ p s o, Pattern.parse "S=s" .standard = .ok p ∧
      parseFor p "replace s (B=x b) (C c)\nif exists x relabel s T" = .ok s ∧
      t.WellFormed ∧ m ∈ p.search .allBindings t ∧ s.operations[0]? = some o ∧
      o.isAtomic = true ∧ s.reportsOf t m 0 = [.skipped "replace" .rootNeedsOneNode] ∧
      o.leftNames (s.before t m 0) = ["x"] ∧ (s.before t m 0).node? "x" = none ∧
      (s.before t m 1).node? "x" = some 2 ∧ (s.apply t m).tree.label 0 = "T" := by
  intro t m
  let given (p : Pattern) (s : Script) (o : Operation) : Bool :=
    (t.attached.flatMap ((Enumeration.start p .allBindings t).matchesAt t)).contains m &&
      o.isAtomic && s.reportsOf t m 0 = [.skipped "replace" .rootNeedsOneNode] &&
      o.leftNames (s.before t m 0) = ["x"] && (s.before t m 0).node? "x" = none &&
      (s.before t m 1).node? "x" = some 2 && (s.apply t m).tree.label 0 = "T"
  -- what can be computed: both texts are read, and the first operation is given up
  have hread : ((Pattern.parse "S=s" .standard).toOption.any fun p =>
      (parseFor p "replace s (B=x b) (C c)\nif exists x relabel s T").toOption.any fun s =>
        s.operations[0]?.any (given p s)) = true := by
    decide +kernel
  obtain ⟨p, hp, hread⟩ := exists_of_any hread
  obtain ⟨s, hs, hread⟩ := exists_of_any hread
  obtain ⟨o, ho, hgiven⟩ := (Option.any_eq_true ..).mp hread
  simp only [given, Bool.and_eq_true, decide_eq_true_eq, List.contains_iff_mem] at hgiven
  obtain ⟨⟨⟨⟨⟨⟨hmem, hatomic⟩, hreports⟩, hleft⟩, hnone⟩, hsome⟩, hlabel⟩ := hgiven
  have ht : t.WellFormed := wellFormed_ofConstituent _
  exact ⟨p, s, o, hp, hs, ht, p.search_eq_flatMap ht _ ▸ hmem, ho, hatomic, hreports, hleft, hnone,
    hsome, hlabel⟩

/-- The name `x` is left, and no other: it has the node that was made for the operand. -/
theorem names_left_of_replaced_root :
    let t := Tree.ofConstituent (some (.node "S" [.node "a" []]))
    let m : Match := ⟨0, [some 0], ["s"]⟩
    ∃ p s o, parseFor p "replace s (B=x b) (C c)\nif exists x relabel s T" = .ok s ∧
      t.WellFormed ∧ m.Known t.nodes.size ∧ s.operations[0]? = some o ∧ o.isAtomic = true ∧
      s.reportsOf t m 0 = [.skipped "replace" .rootNeedsOneNode] ∧
      ∀ name, (s.before t m 1).node? name = (s.before t m 0).node? name ↔ name ≠ "x" := by
  intro t m
  obtain ⟨p, s, o, _, hs, ht, hmem, ho, hatomic, hreports, hleft, _⟩ := exists_replaced_root
  have hm : m.Known t.nodes.size := p.search_known ht _ m hmem
  have hsame := (names_left (isRead_of_parseFor hs) ht hm ho hatomic
    (by rw [hreports]; exact List.cons_ne_nil _ _)).1
  rw [hleft] at hsame
  refine ⟨p, s, o, hs, ht, hm, ho, hatomic, hreports, fun name => (hsame name).trans ?_⟩
  rw [List.mem_singleton]

/-- **A name of an operation that was skipped resolves for the operations behind it.** So it is with
`x` in the script for the root of `(S a)`, where the guard lets the root be relabelled. -/
theorem skipped_operation_declares : ¬ ∀ (source text : String) (p : Pattern) (s : Script)
    (t : Tree) (m : Match) (i : Nat) (o : Operation), Pattern.parse source .standard = .ok p →
    parseFor p text = .ok s → t.WellFormed → m ∈ p.search .allBindings t →
    s.operations[i]? = some o → o.isAtomic = true →
    (∃ d ∈ s.reportsOf t m i, d.isFailure = true) →
    ∀ name, (s.before t m (i + 1)).node? name = (s.before t m i).node? name := by
  intro hall
  obtain ⟨p, s, o, hp, hs, ht, hmem, ho, hatomic, hreports, _, hnone, hsome, _⟩ :=
    exists_replaced_root
  have hfailure : ∃ d ∈ s.reportsOf _ _ 0, d.isFailure = true :=
    ⟨_, hreports ▸ List.mem_singleton_self _, rfl⟩
  have hsame := hall _ _ p s _ _ 0 o hp hs ht hmem ho hatomic hfailure "x"
  rw [hnone, hsome] at hsame
  exact absurd hsame (by simp)

end Script

end Constituency
