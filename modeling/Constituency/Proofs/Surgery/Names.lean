import Constituency.Surgery.Reader
import Constituency.Proofs.Pattern.Captures
import Constituency.Proofs.Surgery.Operation
import Constituency.Proofs.Tree.Shape

/-!
# The names that an operation asks for and declares

An operation asks for the nodes of some names (`Operation.askedNames`), and its templates declare
others. Whatever it comes to, names that had nodes keep having them. It reports a name without a
node only if it asks for that name, and if the name had no node when its turn came; and unless it is
refused, is stopped by such a name or is switched off, the names that it declares have nodes in the
end (`Operation.runAs_named`).

Templates that were read have their holes at leaves, so that nothing they declare is lost where a
hole is filled.
-/

namespace Constituency

open Constituency.Surgery

/-! ## Templates -/

namespace Template

/-- Only a leaf is read as a hole. -/
theorem ofLabel_eq_hole {isLeaf : Bool} {l : Label} {n : String}
    (h : Slot.ofLabel isLeaf l = .hole n) : isLeaf = true := by
  unfold Slot.ofLabel at h
  dsimp only at h
  split at h
  · rename_i hleaf
    rw [Bool.and_eq_true, Bool.and_eq_true] at hleaf
    exact hleaf.1.1
  · exact absurd h (by simp)

/-- The name that a node of a filled template declares. -/
def declaredBy (made : Label × Option Slot) : Option String := made.2.bind Slot.declared?

variable {ε : Type} {find : String → Except ε Constituent}

/-- A node that is no hole is filled by filling the templates below it. -/
theorem fill_node_eq_ok {l : Label} {n : Option String} {isFoot : Bool} {rs : List (Rose Slot)}
    {filled : Rose (Label × Option Slot)} :
    (Rose.node (.node l n isFoot) rs).fill find = .ok filled ↔ ∃ below,
      Rose.fillAll find rs = .ok below ∧ .node (l, some (.node l n isFoot)) below = filled := by
  rw [Rose.fill]
  · rw [bind_eq_ok]
    exact exists_congr fun below => and_congr_right fun _ => ⟨Except.ok.inj, fun h => h ▸ rfl⟩
  · simp

mutual

/-- A filled template remembers the nodes of the template that are no holes, in order. -/
theorem slots_fill {filled : Rose (Label × Option Slot)} : ∀ c : Constituent,
    (mark c).fill find = .ok filled →
    filled.preorder.filterMap Prod.snd = (mark c).preorder.filter (·.asked?.isNone)
  | .node l cs, h => by
    rw [mark] at h ⊢
    cases hslot : Slot.ofLabel cs.isEmpty l with
    | hole n =>
      rw [hslot, Rose.fill] at h
      obtain ⟨c, _, h⟩ := bind_eq_ok.mp h
      obtain rfl := Except.ok.inj h
      rw [List.isEmpty_iff.mp (ofLabel_eq_hole hslot), markAll, Rose.preorder_map,
        List.filterMap_map]
      exact List.filterMap_eq_nil_iff.mpr fun _ _ => rfl
    | node l' n isFoot =>
      rw [hslot] at h
      obtain ⟨below, hbelow, rfl⟩ := fill_node_eq_ok.mp h
      rw [Rose.preorder, Rose.preorder, List.filterMap_cons, slots_fillAll cs hbelow]
      rfl

theorem slots_fillAll {filled : List (Rose (Label × Option Slot))} : ∀ cs : List Constituent,
    Rose.fillAll find (markAll cs) = .ok filled →
    (Rose.preorderAll filled).filterMap Prod.snd =
      (Rose.preorderAll (markAll cs)).filter (·.asked?.isNone)
  | [], h => by
    rw [markAll, Rose.fillAll] at h
    obtain rfl := Except.ok.inj h
    rfl
  | c :: cs, h => by
    rw [markAll, Rose.fillAll] at h
    obtain ⟨first, hfirst, h⟩ := bind_eq_ok.mp h
    obtain ⟨others, hothers, h⟩ := bind_eq_ok.mp h
    obtain rfl := Except.ok.inj h
    rw [markAll, Rose.preorderAll, Rose.preorderAll, List.filterMap_append, List.filter_append,
      slots_fill c hfirst, slots_fillAll cs hothers]

end

/-- **A filled template declares what the template declares.** -/
theorem declared_fill {filled : Rose (Label × Option Slot)} (c : Constituent)
    (h : (mark c).fill find = .ok filled) :
    filled.preorder.filterMap declaredBy = (mark c).preorder.filterMap Slot.declared? := by
  have hslots := congrArg (List.filterMap Slot.declared?) (slots_fill c h)
  rw [List.filterMap_filterMap, List.filterMap_filter] at hslots
  -- a hole declares nothing
  refine hslots.trans (List.filterMap_congr fun slot _ => ?_)
  cases slot <;> rfl

/-- The names that get nodes are those that are declared. -/
theorem map_fst_declaredBy (made : List (Label × Option Slot)) (root : Nat) :
    ((made.zipIdx root).filterMap fun x => (declaredBy x.1).map (·, x.2)).map Prod.fst =
      made.filterMap declaredBy := by
  have hnames : (fun x : (Label × Option Slot) × Nat =>
      ((declaredBy x.1).map (·, x.2)).map Prod.fst) = declaredBy ∘ Prod.fst := by
    funext x
    simp [Function.comp_def]
  rw [List.map_filterMap, hnames, ← List.filterMap_map, List.zipIdx_map_fst]

/-- A template whose nodes are those of a labelled tree with its marks read. -/
def IsMarked (t : Template) : Prop := ∃ c : Option Constituent, t.tree = c.map mark

theorem isMarked_of_parse {cs : List Char} {t : Template} (h : parse cs = .ok t) : t.IsMarked := by
  unfold parse at h
  split at h
  · exact absurd h (by simp)
  · rename_i c _
    dsimp only at h
    split at h
    · exact absurd h (by simp)
    · exact ⟨c, congrArg tree (Except.ok.inj h).symm⟩

variable {t : Template} {slots : Rose Slot}

theorem IsMarked.exists_mark (h : t.IsMarked) (htree : t.tree = some slots) :
    ∃ c, slots = mark c := by
  obtain ⟨o, ho⟩ := h
  obtain ⟨c, _, hc⟩ := Option.map_eq_some_iff.mp (ho.symm.trans htree)
  exact ⟨c, hc.symm⟩

end Template

/-! ## What operations ask for -/

/-- The names of the nodes that are copied for what is to be inserted. -/
def Operand.askedNames : Operand → List String
  | .copyOf name => [name]
  | .made template => template.askedNames

/-- The names of the nodes whose labels are used in a new one. -/
def Relabelling.askedNames : Relabelling → List String
  | .literal _ => []
  | .matching _ parts => ScriptReader.labelNames parts

namespace Operation

/-- The names that an operation needs nodes for. -/
def askedNames : Operation → List String
  | delete names => names
  | prune names => names
  | coindex names => names
  | excise top bottom => [top, bottom]
  | relabel name how => name :: how.askedNames
  | insert operand place => place.anchor :: operand.askedNames
  | move name place => [name, place.anchor]
  | replace name operands => name :: operands.flatMap Operand.askedNames
  | adjoin _ template target => target :: template.askedNames
  | createSubtree template first last => first :: (last.toList ++ template.askedNames)
  | ifExists _ _ guarded => guarded.askedNames

/-- Whether an operation is guarded by a condition that does not hold. -/
def isSwitchedOff (s : Surgery) : Operation → Bool
  | ifExists name negated guarded =>
    (s.node? name).isSome == negated || guarded.isSwitchedOff s
  | _ => false

end Operation

/-- Whether a report is of an operation that was given up. -/
def Diagnostic.isFailure : Diagnostic → Bool
  | .unresolvedNode _ => true
  | .regexMismatch _ _ => false
  | .skipped _ _ => true

/-! ## Names while an application goes on -/

namespace Surgery

/-- Whether all of some names have nodes. -/
def HasAll (s : Surgery) (names : List String) : Prop :=
  ∀ name ∈ names, (s.node? name).isSome = true

/-- The second state is a later one: the match is the same, and no name has lost its node. -/
structure Precedes (s u : Surgery) : Prop where
  matched : u.matched = s.matched
  named : ∀ name, (s.node? name).isSome = true → (u.node? name).isSome = true

variable {s u v : Surgery} {names : List String}

theorem Precedes.refl (s : Surgery) : s.Precedes s := ⟨rfl, fun _ h => h⟩

theorem Precedes.trans (hsu : s.Precedes u) (huv : u.Precedes v) : s.Precedes v :=
  ⟨huv.matched.trans hsu.matched, fun name h => huv.named name (hsu.named name h)⟩

theorem Precedes.hasAll (h : s.Precedes u) (hs : s.HasAll names) : u.HasAll names :=
  fun name hname => h.named name (hs name hname)

theorem Precedes.node?_eq_none (h : s.Precedes u) {name : String} (hu : u.node? name = none) :
    s.node? name = none := by
  by_contra hs
  have hsome := h.named name (Option.isSome_iff_ne_none.mpr hs)
  rw [hu] at hsome
  exact absurd hsome (by simp)

/-- Trees do not matter for names. -/
theorem precedes_withTree (s : Surgery) (t : Tree) : s.Precedes { s with tree := t } :=
  ⟨rfl, fun _ h => h⟩

theorem precedes_declare (s : Surgery) (made : List (String × NodeId)) :
    s.Precedes { s with created := made ++ s.created } := by
  refine ⟨rfl, fun name h => ?_⟩
  rw [node?, List.lookup_append]
  cases made.lookup name with
  | some id => rfl
  | none => exact h

theorem hasAll_declare (s : Surgery) (made : List (String × NodeId)) :
    HasAll { s with created := made ++ s.created } (made.map Prod.fst) := by
  intro name hname
  obtain ⟨⟨name, id⟩, hmem, rfl⟩ := List.mem_map.mp hname
  have hlookup : ((made ++ s.created).lookup name).isSome = true :=
    List.lookup_isSome_iff.mpr ⟨(name, id), List.mem_append_left _ hmem, beq_self_eq_true name⟩
  rw [node?, Option.isSome_or, hlookup, Bool.true_or]

theorem precedes_rename (s : Surgery) (discarded substitute : NodeId) :
    s.Precedes (s.rename discarded substitute) := by
  refine ⟨rfl, fun name h => ?_⟩
  have hlookup := lookup_map_snd (fun x => if x == discarded then substitute else x) s.created name
  rw [node?, Option.isSome_or] at h ⊢
  rw [show (s.rename discarded substitute).created.lookup name = _ from hlookup, Option.isSome_map]
  exact h

end Surgery

/-- What can hinder an operation that asks for some names and declares others: that a name which it
asks for has no node, or the tree. Only operations that declare nothing compare labels. -/
def Obstacle.IsDue (asked declared : List String) (s : Surgery) : Obstacle → Prop
  | unresolved name => name ∈ asked ∧ s.node? name = none
  | mismatch _ _ => declared = []
  | refused _ => True

theorem Obstacle.IsDue.before {asked declared : List String} {s u : Surgery} {o : Obstacle}
    (ho : o.IsDue asked declared u) (h : s.Precedes u) : o.IsDue asked declared s := by
  cases o with
  | unresolved name => exact ⟨ho.1, h.node?_eq_none ho.2⟩
  | mismatch name label => exact ho
  | refused reason => trivial

namespace Step

/-- A step of an operation that asks for some names and declares others, with what is known when it
has been carried out. -/
def Names {α : Type} (asked declared : List String) (x : Step α) (s : Surgery)
    (known : α → Surgery → Prop) : Prop :=
  Ends x s (fun a u => s.Precedes u ∧ known a u) fun o u =>
    s.Precedes u ∧ o.IsDue asked declared s

variable {α β : Type} {asked declared : List String} {s : Surgery}

section rules

variable {x : Step α} {f : α → Step β} {known known' : α → Surgery → Prop}

theorem Names.bind {after : β → Surgery → Prop} (hx : Names asked declared x s known)
    (hf : ∀ a u, s.Precedes u → known a u → Names asked declared (f a) u after) :
    Names asked declared (x >>= f) s after := by
  refine Ends.bind hx ?_ fun _ _ h => h
  rintro a u ⟨hu, hknown⟩
  exact (hf a u hu hknown).mono (fun b v hv => ⟨hu.trans hv.1, hv.2⟩)
    fun o v hv => ⟨hu.trans hv.1, hv.2.before hu⟩

theorem Names.mono (hx : Names asked declared x s known)
    (h : ∀ a u, s.Precedes u → known a u → known' a u) : Names asked declared x s known' :=
  Ends.mono hx (fun a u hu => ⟨hu.1, h a u hu.1 hu.2⟩) fun _ _ hu => hu

theorem Names.of_pure {a : α} (h : known a s) : Names asked declared (pure a) s known :=
  Ends.of_pure ⟨.refl s, h⟩

theorem Names.get_bind {f : Surgery → Step α} (h : Names asked declared (f s) s known) :
    Names asked declared (get >>= f) s known :=
  Ends.get_bind h

theorem Names.of_ofExcept {r : Except Obstacle α} (hok : ∀ a, r = .ok a → known a s)
    (herror : ∀ o, r = .error o → o.IsDue asked declared s) :
    Names asked declared (ofExcept r) s known :=
  Ends.of_ofExcept (fun a ha => ⟨.refl s, hok a ha⟩) fun o ho => ⟨.refl s, herror o ho⟩

theorem Names.of_refused {reason : Refusal} :
    Names asked declared (throw (.refused reason) : Step α) s known :=
  Ends.of_throw ⟨.refl s, trivial⟩

end rules

/-! ## Single steps -/

theorem fetch_isDue {name : String} {o : Obstacle} (hname : name ∈ asked)
    (h : s.fetch name = .error o) : o.IsDue asked declared s := by
  rcases fetch_eq_error_iff.mp h with ⟨hnone, rfl⟩ | ⟨_, _, _, rfl⟩
  · exact ⟨hname, hnone⟩
  · trivial

theorem fetch_names {name : String} (hname : name ∈ asked) :
    Names asked declared (fetch name) s fun _ _ => True :=
  .get_bind (.of_ofExcept (fun _ _ => trivial) fun _ => fetch_isDue hname)

theorem fetchConstituent_isDue {name : String} {o : Obstacle} (hname : name ∈ asked)
    (h : s.fetchConstituent name = .error o) : o.IsDue asked declared s :=
  fetch_isDue hname (fetchConstituent_eq_error_iff.mp h)

theorem ask_names (question : Tree → Except Refusal α) :
    Names asked declared (ask question) s fun _ _ => True := by
  refine .get_bind (.of_ofExcept (fun _ _ => trivial) fun o ho => ?_)
  cases hq : question s.tree with
  | ok a =>
    rw [hq] at ho
    exact absurd ho (by simp [Except.mapError])
  | error e =>
    rw [hq] at ho
    obtain rfl := Except.error.inj ho
    trivial

/-- An edit is no matter of names. -/
theorem edit_names (change : Edit α) :
    Names asked declared (edit change) s fun _ _ => True := by
  refine Ends.get_bind ?_
  rcases change.run.run s.tree with ⟨r, tree⟩
  cases r with
  | ok a =>
    exact Ends.set_bind (Ends.of_ofExcept (fun _ _ => ⟨precedes_withTree s tree, trivial⟩)
      fun _ he => absurd he (by simp [Except.mapError]))
  | error e =>
    refine Ends.set_bind (Ends.of_ofExcept (fun _ ha => absurd ha (by simp [Except.mapError]))
      fun o ho => ⟨precedes_withTree s tree, ?_⟩)
    obtain rfl := Except.error.inj ho
    trivial

theorem graft_names (c : Constituent) :
    Names asked declared (graft c) s fun _ _ => True :=
  Ends.get_bind (Ends.modify_bind (Ends.of_pure ⟨precedes_withTree s _, trivial⟩))

/-! ## Trees made from templates -/

/-- **A tree made from a template gives nodes to all names that the template declares.** -/
theorem instantiate_names {template : Template} (hmarked : template.IsMarked)
    (hasked : ∀ name ∈ template.askedNames, name ∈ asked) :
    Names asked declared (instantiate template) s fun _ u => u.HasAll template.declaredNames := by
  obtain ⟨c, hc⟩ := hmarked
  unfold instantiate
  rw [hc]
  cases c with
  | none => exact .of_refused
  | some c =>
    have hslots : template.slots = (Template.mark c).preorder := by rw [Template.slots, hc]; rfl
    have hfill : Names asked declared
        (ofExcept ((Template.mark c).fill s.fetchConstituent)) s fun filled _ =>
          filled.preorder.filterMap Template.declaredBy = template.declaredNames := by
      refine .of_ofExcept (fun filled hfilled => ?_) fun o ho => ?_
      · rw [Template.declaredNames, hslots, Template.declared_fill c hfilled]
      · obtain ⟨name, hname, hfind⟩ := Rose.fill_error (Template.mark c) ho
        refine fetchConstituent_isDue (hasked name ?_) hfind
        rwa [Template.askedNames, hslots]
    -- filling changes nothing, the graft changes the tree only, and then the names are added
    refine .get_bind (hfill.bind fun filled u _ hfilled => ?_)
    refine (graft_names _).bind fun root v _ _ => ?_
    refine Ends.modify_bind (Ends.of_pure ⟨precedes_declare v _, ?_⟩)
    rw [← hfilled, ← Template.map_fst_declaredBy filled.preorder root]
    exact hasAll_declare v _

theorem instantiateWithFoot_names {template : Template} (hmarked : template.IsMarked)
    (hasked : ∀ name ∈ template.askedNames, name ∈ asked) :
    Names asked declared (instantiateWithFoot template) s fun _ u =>
      u.HasAll template.declaredNames := by
  refine (instantiate_names hmarked hasked).bind fun made u _ hu => ?_
  obtain ⟨root, foot⟩ := made
  cases foot with
  | none => exact .of_refused
  | some foot => exact .of_pure hu

theorem make_names {o : Operand} (hmarked : ∀ t, o = .made t → t.IsMarked)
    (hasked : ∀ name ∈ o.askedNames, name ∈ asked) :
    Names asked declared (make o) s fun _ u => ∀ t, o = .made t → u.HasAll t.declaredNames := by
  cases o with
  | copyOf name =>
    have hcopied : Names asked declared (ofExcept (s.fetchConstituent name)) s fun _ _ => True :=
      .of_ofExcept (fun _ _ => trivial) fun _ =>
        fetchConstituent_isDue (hasked name (List.mem_singleton_self _))
    refine .get_bind (hcopied.bind fun c u _ _ => (graft_names c).mono fun _ _ _ _ _ ht => ?_)
    exact absurd ht (by simp)
  | made template =>
    refine (instantiate_names (hmarked template rfl) hasked).bind fun made u _ hu => .of_pure ?_
    intro t ht
    rwa [← Operand.made.inj ht]

theorem makeAll_names {os : List Operand} (hmarked : ∀ t, .made t ∈ os → t.IsMarked)
    (hasked : ∀ name ∈ os.flatMap Operand.askedNames, name ∈ asked) :
    Names asked declared (makeAll os) s fun _ u =>
      ∀ t, .made t ∈ os → u.HasAll t.declaredNames := by
  induction os generalizing s with
  | nil => exact .of_pure (by simp)
  | cons o os ih =>
    rw [List.flatMap_cons, List.forall_mem_append] at hasked
    have hfirst : ∀ t, o = .made t → t.IsMarked := fun t ht =>
      hmarked t (ht ▸ List.mem_cons_self ..)
    have hothers : ∀ t, .made t ∈ os → t.IsMarked := fun t ht =>
      hmarked t (List.mem_cons_of_mem o ht)
    refine (make_names hfirst hasked.1).bind fun id u _ hu => ?_
    refine (ih hothers hasked.2).bind fun ids v huv hv => .of_pure fun t ht => ?_
    rcases List.mem_cons.mp ht with ht | ht
    · exact huv.hasAll (hu t ht.symm)
    · exact hv t ht

theorem adjoin_names (mode : AdjunctionMode) {template : Template} (target : NodeId)
    (hmarked : template.IsMarked) (hasked : ∀ name ∈ template.askedNames, name ∈ asked) :
    Names asked declared (adjoin mode template target) s fun _ u =>
      u.HasAll template.declaredNames := by
  refine (ask_names _).bind fun _ t _ _ => ?_
  refine (instantiateWithFoot_names hmarked hasked).bind fun made u _ hu => ?_
  obtain ⟨root, foot⟩ := made
  refine (edit_names _).bind fun _ v huv _ => ?_
  have hv := huv.hasAll hu
  -- a name that passes to another node keeps having one
  cases mode with
  | root => exact .of_pure hv
  | head =>
    have hw := precedes_rename v root target
    exact Ends.of_modify ⟨hw, hw.hasAll hv⟩
  | foot =>
    have hw := precedes_rename v foot target
    exact Ends.of_modify ⟨hw, hw.hasAll hv⟩

theorem enclose_names {template : Template} (first : NodeId) (last : Option NodeId)
    (hmarked : template.IsMarked) (hasked : ∀ name ∈ template.askedNames, name ∈ asked) :
    Names asked declared (enclose template first last) s fun _ u =>
      u.HasAll template.declaredNames := by
  have hmake : ∀ (t : Surgery) (change : NodeId × NodeId → Edit Unit),
      Names asked declared (do
        let made ← instantiateWithFoot template
        edit (change made)) t fun _ u => u.HasAll template.declaredNames := fun t change =>
    (instantiateWithFoot_names hmarked hasked).bind fun made u _ hu =>
      (edit_names _).mono fun _ _ hv _ => hv.hasAll hu
  refine (ask_names _).bind fun _ t _ _ => ?_
  split
  · exact hmake t fun made => .encloseNode first made.1 made.2
  · exact (ask_names _).bind fun span u _ _ => hmake u fun made =>
      .encloseSisters span made.1 made.2

/-! ## New labels -/

theorem relabelled_isDue {name : String} {id : NodeId} {how : Relabelling} {o : Obstacle}
    (hasked : ∀ name ∈ how.askedNames, name ∈ asked)
    (h : s.relabelled name id how = .error o) : o.IsDue asked [] s := by
  obtain ⟨r, parts, rfl, rfl | ⟨other, hother, hfetch⟩⟩ := relabelled_eq_error h
  · rfl
  · exact fetch_isDue (hasked _ (List.mem_filterMap.mpr ⟨_, hother, rfl⟩)) hfetch

end Step

/-! ## Operations -/

namespace Surgery

/-- What an operation that asks for some names and declares others has come to. -/
structure Named (asked declared : List String) (s : Surgery)
    (after : Surgery × List Diagnostic) : Prop where
  precedes : s.Precedes after.1
  unresolved : ∀ name, .unresolvedNode name ∈ after.2 → name ∈ asked ∧ s.node? name = none
  declared : (∀ d ∈ after.2, d.isFailure = false) → after.1.HasAll declared

variable {asked declared : List String} {s : Surgery}

theorem attempt_named (keyword : String) {step : Step Unit}
    (h : step.Names asked declared s fun _ u => u.HasAll declared) :
    s.Named asked declared (s.attempt keyword step) := by
  rcases attempt_cases keyword h with ⟨u, hattempt, hu, hall⟩ | ⟨o, u, hattempt, hu, ho⟩
  · rw [hattempt]
    exact ⟨hu, fun _ hd => absurd hd (by simp), fun _ => hall⟩
  · rw [hattempt]
    refine ⟨hu, fun name hd => ?_, fun hd => ?_⟩
    · have hreport := List.mem_singleton.mp hd
      cases o with
      | unresolved x =>
        obtain rfl := Diagnostic.unresolvedNode.inj hreport
        exact ho
      | mismatch x l => exact absurd hreport (by simp [Obstacle.report])
      | refused reason => exact absurd hreport (by simp [Obstacle.report])
    · have hreport := hd _ (List.mem_singleton_self _)
      cases o with
      | unresolved x => exact absurd hreport (by simp [Obstacle.report, Diagnostic.isFailure])
      | mismatch x l =>
        rw [show declared = [] from ho]
        exact fun _ hname => absurd hname (by simp)
      | refused reason => exact absurd hreport (by simp [Obstacle.report, Diagnostic.isFailure])

theorem forEach_named (keyword : String) (change : NodeId → Edit Unit) (names : List String) :
    s.Named names [] (forEach keyword change names s) := by
  induction names generalizing s with
  | nil => exact ⟨.refl s, fun _ hd => absurd hd (by simp [forEach]), fun _ _ hname =>
      absurd hname (by simp)⟩
  | cons name names ih =>
    have hfirst : s.Named [name] [] (s.attempt keyword do
        let id ← Step.fetch name
        Step.edit (change id)) :=
      attempt_named keyword ((Step.fetch_names (List.mem_singleton_self name)).bind
        fun id u _ _ => (Step.edit_names _).mono fun _ _ _ _ _ hname => absurd hname (by simp))
    rw [forEach]
    refine ⟨hfirst.precedes.trans ih.precedes, fun x hx => ?_, fun _ _ hname =>
      absurd hname (by simp)⟩
    rcases List.mem_append.mp hx with hx | hx
    · obtain ⟨hmem, hnone⟩ := hfirst.unresolved x hx
      exact ⟨List.mem_singleton.mp hmem ▸ List.mem_cons_self .., hnone⟩
    · obtain ⟨hmem, hnone⟩ := ih.unresolved x hx
      exact ⟨List.mem_cons_of_mem name hmem, hfirst.precedes.node?_eq_none hnone⟩

end Surgery

namespace Operation

open Step

variable {s : Surgery}

theorem mem_templates_insert {operand : Operand} {place : Place} {t : Template} :
    t ∈ (insert operand place).templates ↔ operand = .made t := by
  cases operand with
  | copyOf n => simp [templates]
  | made t' => simp [templates, eq_comm]

theorem mem_templates_replace {name : String} {operands : List Operand} {t : Template} :
    t ∈ (replace name operands).templates ↔ .made t ∈ operands := by
  rw [templates, List.mem_filterMap]
  constructor
  · rintro ⟨o, ho, ht⟩
    cases o with
    | copyOf n => exact absurd ht (by simp)
    | made t' => exact Option.some.inj ht ▸ ho
  · exact fun ht => ⟨.made t, ht, rfl⟩

theorem hasAll_declaredNames {o : Operation}
    (h : ∀ t ∈ o.templates, s.HasAll t.declaredNames) : s.HasAll o.declaredNames := by
  intro name hname
  obtain ⟨t, ht, hmem⟩ := List.mem_flatMap.mp hname
  exact h t ht name hmem

/-- **What an operation comes to, as far as names are concerned.** -/
theorem runAs_named (keyword : String) (marks : Marks) (o : Operation)
    (hmarked : ∀ t ∈ o.templates, t.IsMarked) :
    s.Named o.askedNames (if o.isSwitchedOff s then [] else o.declaredNames)
      (o.runAs keyword marks s) := by
  -- of an operation without templates no name is to be declared
  have hnothing : ∀ u : Surgery, u.HasAll [] := fun _ _ hname => absurd hname (by simp)
  have hedit : ∀ {asked : List String} {α : Type} {change : Edit α} {u : Surgery},
      Names asked [] (edit change) u fun _ v => v.HasAll [] := fun {_ _ _ _} =>
    (edit_names _).mono fun _ v _ _ => hnothing v
  induction o with
  | delete names => exact forEach_named keyword _ names
  | prune names => exact forEach_named keyword _ names
  | coindex names => exact forEach_named keyword _ names
  | excise top bottom =>
    exact attempt_named keyword ((fetch_names (by simp [askedNames])).bind fun _ _ _ _ =>
      (fetch_names (by simp [askedNames])).bind fun _ _ _ _ => hedit)
  | relabel name how =>
    refine attempt_named keyword ((fetch_names (by simp [askedNames])).bind fun id u _ _ => ?_)
    have hlabel : Names (relabel name how).askedNames [] (ofExcept (u.relabelled name id how)) u
        fun _ _ => True :=
      .of_ofExcept (fun _ _ => trivial) fun _ => relabelled_isDue fun _ hname =>
        List.mem_cons_of_mem name hname
    exact .get_bind (hlabel.bind fun _ _ _ _ => hedit)
  | insert operand place =>
    refine attempt_named keyword ((fetch_names (by simp [askedNames])).bind fun _ _ _ _ =>
      (ask_names _).bind fun _ _ _ _ => ?_)
    refine (make_names (fun t ht => hmarked t (mem_templates_insert.mpr ht))
      fun _ hname => List.mem_cons_of_mem place.anchor hname).bind fun id u _ hu => ?_
    refine (edit_names _).mono fun _ v huv _ => ?_
    exact huv.hasAll (hasAll_declaredNames fun t ht => hu t (mem_templates_insert.mp ht))
  | move name place =>
    exact attempt_named keyword ((fetch_names (by simp [askedNames])).bind fun _ _ _ _ =>
      (fetch_names (by simp [askedNames])).bind fun _ _ _ _ => (ask_names _).bind fun _ _ _ _ =>
        (ask_names _).bind fun _ _ _ _ => hedit)
  | replace name operands =>
    refine attempt_named keyword ((fetch_names (by simp [askedNames])).bind fun _ _ _ _ =>
      (ask_names _).bind fun _ _ _ _ => ?_)
    refine (makeAll_names (fun t ht => hmarked t (mem_templates_replace.mpr ht))
      fun _ hname => List.mem_cons_of_mem name hname).bind fun ids u _ hu => ?_
    refine (edit_names _).mono fun _ v huv _ => huv.hasAll (hasAll_declaredNames fun t ht => ?_)
    exact hu t (mem_templates_replace.mp ht)
  | adjoin mode template target =>
    have hone : ∀ u : Surgery, u.HasAll template.declaredNames →
        u.HasAll (adjoin mode template target).declaredNames := fun u hu =>
      hasAll_declaredNames fun t ht => by rwa [List.mem_singleton.mp ht]
    refine attempt_named keyword ((fetch_names (by simp [askedNames])).bind fun target _ _ _ => ?_)
    refine (adjoin_names mode target (hmarked template (List.mem_singleton_self _))
      fun _ hname => List.mem_cons_of_mem _ hname).mono fun _ v _ hv => hone v hv
  | createSubtree template first last =>
    have hone : ∀ u : Surgery, u.HasAll template.declaredNames →
        u.HasAll (createSubtree template first last).declaredNames := fun u hu =>
      hasAll_declaredNames fun t ht => by rwa [List.mem_singleton.mp ht]
    have henclose : ∀ (u : Surgery) (first' : NodeId) (last' : Option NodeId),
        Names (createSubtree template first last).askedNames
          (createSubtree template first last).declaredNames (enclose template first' last') u
          fun _ v => v.HasAll (createSubtree template first last).declaredNames :=
      fun u first' last' =>
        (enclose_names first' last' (hmarked template (List.mem_singleton_self _))
          fun _ hname => List.mem_cons_of_mem _ (List.mem_append_right _ hname)).mono
          fun _ v _ hv => hone v hv
    refine attempt_named keyword ((fetch_names (by simp [askedNames])).bind fun first' u _ _ => ?_)
    cases last with
    | none => exact henclose u first' none
    | some last =>
      have hlast : Names (createSubtree template first (some last)).askedNames
          (createSubtree template first (some last)).declaredNames ((some last).mapM fetch) u
          fun _ _ => True :=
        (fetch_names (by simp [askedNames])).bind fun _ _ _ _ => .of_pure trivial
      exact hlast.bind fun last' v _ _ => henclose v first' last'
  | ifExists name negated guarded ih =>
    -- the guard decides alike whether the operation runs and whether it is switched off
    have hguarded := ih hmarked
    rw [runAs, isSwitchedOff]
    cases hguard : (s.node? name).isSome == negated with
    | true =>
      rw [bne, hguard]
      exact ⟨.refl s, fun _ hd => absurd hd (by simp), fun _ => hnothing s⟩
    | false =>
      rw [bne, hguard, Bool.false_or]
      exact hguarded

end Operation

end Constituency
