import Constituency.Proofs.Surgery.Edit

/-!
# What the steps of an operation can do

The steps that come before the edit of an operation look at the tree or add
labelled trees to the arena, and the edit, if it is refused, has done nothing.
So whatever hinders an operation, it leaves a tree that has only grown
(`Prepared`); and an operation that is carried out comes to a sequence of known
requests (`Continued`).

Both relations carry along that every name has its node in the arena. As long as
this holds, no step is hindered by a missing node: names are resolved to nodes of
the arena, templates and copies bring their own, and the other nodes are reached
over links.
-/

namespace Constituency

open Constituency.Tree

namespace Surgery

/-- Every name that has a node has one of the arena. -/
def NamesKnown (s : Surgery) : Prop :=
  ∀ name id, s.node? name = some id → id < s.tree.nodes.size

/-- The tree has at most grown. -/
structure Prepared (s u : Surgery) : Prop where
  grown : Grown s.tree u.tree
  names : s.NamesKnown → u.NamesKnown

/-- The tree has changed by known requests. -/
structure Continued (s u : Surgery) : Prop where
  edits : Edits s.tree u.tree
  names : s.NamesKnown → u.NamesKnown

variable {s u v : Surgery}

theorem Prepared.refl (s : Surgery) : Prepared s s := ⟨.refl _, fun h => h⟩

theorem Prepared.trans (hsu : Prepared s u) (huv : Prepared u v) : Prepared s v :=
  ⟨hsu.grown.trans huv.grown, fun h => huv.names (hsu.names h)⟩

theorem Prepared.continued (h : Prepared s u) : Continued s u := ⟨h.grown.edits, h.names⟩

theorem Continued.trans (hsu : Continued s u) (huv : Continued u v) : Continued s v :=
  ⟨hsu.edits.trans huv.edits, fun h => huv.names (hsu.names h)⟩

/-! ## The nodes of names -/

/-- **The node of a name** is one of the arena. -/
theorem fetch_eq_ok_iff {name : String} {id : NodeId} :
    s.fetch name = .ok id ↔ s.node? name = some id ∧ id < s.tree.nodes.size := by
  rw [fetch, ← contains_eq_true]
  cases s.node? name with
  | none => exact ⟨fun h => absurd h (by simp), fun h => absurd h.1 (by simp)⟩
  | some found =>
    dsimp only
    constructor
    · intro h
      split at h
      · rename_i hknown
        obtain rfl := Except.ok.inj h
        exact ⟨rfl, hknown⟩
      · exact absurd h (by simp)
    · rintro ⟨hid, hknown⟩
      obtain rfl := Option.some.inj hid
      exact if_pos hknown

/-- Without such a node a name is either unresolved or stands for an unknown node. -/
theorem fetch_eq_error_iff {name : String} {o : Obstacle} :
    s.fetch name = .error o ↔ (s.node? name = none ∧ o = .unresolved name) ∨
      ∃ id, s.node? name = some id ∧ ¬ id < s.tree.nodes.size ∧ o = .refused .unknownNode := by
  rw [fetch]
  cases s.node? name with
  | none =>
    refine ⟨fun h => .inl ⟨rfl, (Except.error.inj h).symm⟩, ?_⟩
    rintro (⟨_, rfl⟩ | ⟨_, hid, _⟩)
    · rfl
    · exact absurd hid (by simp)
  | some found =>
    dsimp only
    split
    · rename_i hknown
      refine ⟨fun h => absurd h (by simp), ?_⟩
      rintro (⟨hnone, _⟩ | ⟨_, hid, hunknown, _⟩)
      · exact absurd hnone (by simp)
      · obtain rfl := Option.some.inj hid
        exact absurd (contains_eq_true.mp hknown) hunknown
    · rename_i hknown
      rw [contains_eq_true] at hknown
      refine ⟨fun h => .inr ⟨found, rfl, hknown, (Except.error.inj h).symm⟩, ?_⟩
      rintro (⟨hnone, _⟩ | ⟨_, _, _, rfl⟩)
      · exact absurd hnone (by simp)
      · rfl

theorem fetchConstituent_eq_ok_iff {name : String} {c : Constituent} :
    s.fetchConstituent name = .ok c ↔ ∃ id, s.fetch name = .ok id ∧ s.tree.constituent id = c := by
  rw [fetchConstituent]
  cases s.fetch name <;> simp [Except.map]

theorem fetchConstituent_eq_error_iff {name : String} {o : Obstacle} :
    s.fetchConstituent name = .error o ↔ s.fetch name = .error o := by
  rw [fetchConstituent]
  cases s.fetch name <;> simp [Except.map]

/-! ## Attempts -/

/-- **An attempt at a step** is the step without a report, or what is left of it with one report. -/
theorem attempt_cases (keyword : String) {step : Step Unit} {done : Unit → Surgery → Prop}
    {failed : Obstacle → Surgery → Prop} (h : Ends step s done failed) :
    (∃ u, s.attempt keyword step = (u, []) ∧ done () u) ∨
      ∃ o u, s.attempt keyword step = (u, [o.report keyword]) ∧ failed o u := by
  unfold Ends at h
  unfold attempt
  rcases hrun : step.run.run s with ⟨_ | o, u⟩
  · rw [hrun] at h
    exact .inr ⟨_, u, rfl, h⟩
  · rw [hrun] at h
    exact .inl ⟨u, rfl, h⟩

/-! ## Names with nodes of the arena -/

/-- Names keep their nodes in an arena that does not shrink. -/
theorem NamesKnown.withTree {t : Tree} (h : s.NamesKnown) (ht : s.tree.nodes.size ≤ t.nodes.size) :
    NamesKnown { s with tree := t } :=
  fun name id hid => Nat.lt_of_lt_of_le (h name id hid) ht

/-- Names for known nodes can be declared. -/
theorem NamesKnown.declare (h : s.NamesKnown) {names : List (String × NodeId)}
    (hnames : ∀ entry ∈ names, entry.2 < s.tree.nodes.size) :
    NamesKnown { s with created := names ++ s.created } := by
  intro name id hid
  rw [node?, List.lookup_append] at hid
  cases hlookup : names.lookup name with
  | some x =>
    rw [hlookup] at hid
    obtain rfl := Option.some.inj hid
    obtain ⟨l₁, l₂, hsplit, _⟩ := List.lookup_eq_some_iff.mp hlookup
    exact hnames (name, x) (by rw [hsplit]; simp)
  | none =>
    rw [hlookup, Option.none_or] at hid
    exact h name id hid

theorem lookup_map_snd (f : NodeId → NodeId) (created : List (String × NodeId)) (name : String) :
    (created.map fun entry => (entry.1, f entry.2)).lookup name =
      (created.lookup name).map f := by
  induction created with
  | nil => rfl
  | cons entry created ih =>
    rw [List.map_cons, List.lookup_cons, List.lookup_cons, ih]
    split <;> rfl

/-- A name of one node can be passed to another. -/
theorem NamesKnown.rename (h : s.NamesKnown) (discarded : NodeId) {substitute : NodeId}
    (hsub : substitute < s.tree.nodes.size) : (s.rename discarded substitute).NamesKnown := by
  intro name id hid
  have hlookup : (s.rename discarded substitute).created.lookup name =
      (s.created.lookup name).map fun x => if x == discarded then substitute else x :=
    lookup_map_snd (fun x => if x == discarded then substitute else x) s.created name
  rw [node?, hlookup] at hid
  cases hcreated : s.created.lookup name with
  | some x =>
    rw [hcreated] at hid
    obtain rfl := Option.some.inj hid
    show (if x == discarded then substitute else x) < s.tree.nodes.size
    split
    · exact hsub
    · exact h name x (by rw [node?, hcreated]; rfl)
  | none =>
    rw [hcreated] at hid
    exact h name id (by rw [node?, hcreated]; exact hid)

end Surgery

/-- An obstacle that is no missing node, if every name has its node in the arena. -/
def Obstacle.Proper (s : Surgery) (o : Obstacle) : Prop :=
  s.NamesKnown → o ≠ .refused .unknownNode

namespace Step

open Surgery

variable {α β : Type} {s : Surgery}

/-- A step that only prepares, with what is known of its value. -/
def Prepares (x : Step α) (s : Surgery) (known : α → Surgery → Prop) : Prop :=
  Ends x s (fun a u => Prepared s u ∧ known a u) fun o u => Prepared s u ∧ o.Proper s

/-- A step that comes to known requests if it is carried out, and has only prepared if it is not. -/
def Sound (x : Step α) (s : Surgery) : Prop :=
  Ends x s (fun _ u => Continued s u) fun o u => Prepared s u ∧ o.Proper s

section rules

variable {x : Step α} {f : α → Step β} {known : α → Surgery → Prop}

/-- An obstacle to a later step is an obstacle to the whole. -/
theorem proper_of_prepared {u : Surgery} {o : Obstacle} (hu : Prepared s u) (ho : o.Proper u) :
    o.Proper s :=
  fun h => ho (hu.names h)

theorem Prepares.bind {after : β → Surgery → Prop} (hx : Prepares x s known)
    (hf : ∀ a u, Prepared s u → known a u → Prepares (f a) u after) :
    Prepares (x >>= f) s after := by
  refine Ends.bind hx ?_ fun _ _ h => h
  intro a u h
  exact (hf a u h.1 h.2).mono (fun b v hv => ⟨h.1.trans hv.1, hv.2⟩)
    fun o v hv => ⟨h.1.trans hv.1, proper_of_prepared h.1 hv.2⟩

theorem Prepares.sound (hx : Prepares x s known)
    (hf : ∀ a u, Prepared s u → known a u → Sound (f a) u) : Sound (x >>= f) s := by
  refine Ends.bind hx ?_ fun _ _ h => h
  intro a u h
  exact (hf a u h.1 h.2).mono (fun b v hv => h.1.continued.trans hv)
    fun o v hv => ⟨h.1.trans hv.1, proper_of_prepared h.1 hv.2⟩

theorem Prepares.of_pure {a : α} (h : known a s) : Prepares (pure a) s known :=
  Ends.of_pure ⟨.refl s, h⟩

theorem Prepares.mono {known' : α → Surgery → Prop} (hx : Prepares x s known)
    (h : ∀ a u, known a u → known' a u) : Prepares x s known' :=
  Ends.mono hx (fun a u hu => ⟨hu.1, h a u hu.2⟩) fun _ _ h => h

theorem Prepares.get_bind {f : Surgery → Step α} (h : Prepares (f s) s known) :
    Prepares (get >>= f) s known :=
  Ends.get_bind h

theorem Sound.get_bind {f : Surgery → Step α} (h : Sound (f s) s) : Sound (get >>= f) s :=
  Ends.get_bind h

theorem Prepares.of_ofExcept {r : Except Obstacle α} (hok : ∀ a, r = .ok a → known a s)
    (herror : ∀ o, r = .error o → o.Proper s) : Prepares (ofExcept r) s known :=
  Ends.of_ofExcept (fun a ha => ⟨.refl s, hok a ha⟩) fun o ho => ⟨.refl s, herror o ho⟩

end rules

/-! ## Names -/

theorem fetch_error {name : String} {o : Obstacle} (h : s.fetch name = .error o) : o.Proper s := by
  intro hnames
  rcases fetch_eq_error_iff.mp h with ⟨_, rfl⟩ | ⟨id, hid, hunknown, _⟩
  · simp
  · exact absurd (hnames name id hid) hunknown

theorem fetch_prepares (name : String) :
    Prepares (fetch name) s fun id u => u = s ∧ id < s.tree.nodes.size :=
  .get_bind (.of_ofExcept (fun _ h => ⟨rfl, (fetch_eq_ok_iff.mp h).2⟩) fun _ h => fetch_error h)

theorem fetchConstituent_error {name : String} {o : Obstacle}
    (h : s.fetchConstituent name = .error o) : o.Proper s :=
  fetch_error (fetchConstituent_eq_error_iff.mp h)

/-! ## Questions to the tree -/

theorem ask_prepares {question : Tree → Except Refusal α} {known : α → Surgery → Prop}
    (hok : ∀ a, question s.tree = .ok a → known a s)
    (herror : ∀ e, question s.tree = .error e → e ≠ .unknownNode) :
    Prepares (ask question) s known := by
  refine Ends.get_bind (Ends.of_ofExcept (fun a ha => ⟨.refl s, hok a ?_⟩)
    fun o ho => ⟨.refl s, ?_⟩)
  · cases hq : question s.tree with
    | ok b =>
      rw [hq] at ha
      obtain rfl := Except.ok.inj ha
      rfl
    | error e =>
      rw [hq] at ha
      exact absurd ha (by simp [Except.mapError])
  · intro _
    cases hq : question s.tree with
    | ok b =>
      rw [hq] at ho
      exact absurd ho (by simp [Except.mapError])
    | error e =>
      rw [hq] at ho
      obtain rfl := Except.error.inj ho
      intro heq
      exact herror e hq (Obstacle.refused.inj heq)

theorem require_prepares {reason : Refusal} {condition : Tree → Bool}
    (hreason : reason ≠ .unknownNode) :
    Prepares (require reason condition) s fun _ u => u = s ∧ condition s.tree = true := by
  refine ask_prepares (fun _ h => ⟨rfl, ?_⟩) ?_
  · split at h
    · assumption
    · exact absurd h (by simp)
  · intro e h
    split at h
    · exact absurd h (by simp)
    · obtain rfl := Except.error.inj h
      exact hreason

/-! ## Edits and grafts -/

/-- **An edit as a step of an application.** -/
theorem edit_sound {change : Edit α} (h : s.tree.WellFormed) (hchange : change.Sound s.tree) :
    Sound (edit change) s := by
  refine Ends.get_bind ?_
  unfold Edit.Sound Ends at hchange
  rcases hrun : change.run.run s.tree with ⟨r, tree⟩
  rw [hrun] at hchange
  cases r with
  | ok a =>
    have hcontinued : Continued s { s with tree := tree } :=
      ⟨hchange, fun hn => hn.withTree (h.edits hchange).2⟩
    exact Ends.set_bind (Ends.of_ofExcept (fun _ _ => hcontinued)
      fun _ he => absurd he (by simp [Except.mapError]))
  | error e =>
    obtain ⟨rfl, hproper⟩ := hchange
    refine Ends.set_bind (Ends.of_ofExcept (fun _ ha => absurd ha (by simp [Except.mapError]))
      fun o ho => ⟨.refl s, fun _ => ?_⟩)
    obtain rfl := Except.error.inj ho
    intro heq
    exact hproper (Obstacle.refused.inj heq)

theorem graft_prepares (c : Constituent) :
    Prepares (graft c) s fun id u =>
      id = s.tree.nodes.size ∧ u = { s with tree := (s.tree.graft c).1 } := by
  refine Ends.get_bind (Ends.modify_bind (Ends.of_pure ⟨⟨.single _ c, ?_⟩, rfl, rfl⟩))
  intro hn
  refine hn.withTree ?_
  exact (Grown.single s.tree c).size_le

/-! ## Trees made from templates -/

end Step

/-- Where two things are tried, one of them goes wrong. -/
theorem error_of_bind {ε α β : Type} {x : Except ε α} {f : α → Except ε β} {e : ε}
    (h : x >>= f = .error e) : x = .error e ∨ ∃ a, x = .ok a ∧ f a = .error e := by
  cases x with
  | ok a => exact .inr ⟨a, rfl, h⟩
  | error e' => exact .inl (congrArg _ (Except.error.inj h))

namespace Rose

variable {ε : Type} {find : String → Except ε Constituent}

mutual

/-- The only thing that goes wrong with filling a template is filling a hole. -/
theorem fill_error {e : ε} : ∀ r : Rose Slot, r.fill find = .error e →
    ∃ n ∈ r.preorder.filterMap Slot.asked?, find n = .error e
  | .node (.hole n) _, h => by
    rcases error_of_bind h with h | ⟨_, _, h⟩
    · exact ⟨n, List.mem_cons_self .., h⟩
    · exact absurd h (by simp [pure, Except.pure])
  | .node (.node l n f) cs, h => by
    rw [fill] at h
    · rcases error_of_bind h with h | ⟨_, _, h⟩
      · exact fillAll_error cs h
      · exact absurd h (by simp [pure, Except.pure])
    · simp

theorem fillAll_error {e : ε} : ∀ rs : List (Rose Slot), fillAll find rs = .error e →
    ∃ n ∈ (preorderAll rs).filterMap Slot.asked?, find n = .error e
  | [], h => absurd h (by simp [fillAll])
  | r :: rs, h => by
    rw [fillAll] at h
    rw [preorderAll, List.filterMap_append]
    rcases error_of_bind h with h | ⟨_, _, h⟩
    · obtain ⟨n, hn, hfind⟩ := fill_error r h
      exact ⟨n, List.mem_append_left _ hn, hfind⟩
    · rcases error_of_bind h with h | ⟨_, _, h⟩
      · obtain ⟨n, hn, hfind⟩ := fillAll_error rs h
        exact ⟨n, List.mem_append_right _ hn, hfind⟩
      · exact absurd h (by simp [pure, Except.pure])

end

end Rose

namespace Step

open Surgery

variable {s : Surgery}

/-- A new node of a graft is as a foot has to be. -/
theorem footed_graft {t : Tree} (h : t.WellFormed) (c : Constituent) {foot : NodeId}
    (hge : t.nodes.size ≤ foot) (hlt : foot < (t.graft c).1.nodes.size) :
    Edit.Footed (t.graft c).1 t.nodes.size foot := by
  have htop := (t.segment_graft c).top t.nodes.size (List.mem_singleton_self _)
  exact ⟨htop.2.1, htop.2.2, h.isAttached_graft_of_le c (Nat.le_refl _), hlt,
    h.isAttached_graft_of_le c hge, parent_graft_of_le t c hge hlt⟩

theorem instantiate_prepares (template : Template) (h : s.tree.WellFormed) :
    Prepares (instantiate template) s fun made u => made.1 < u.tree.nodes.size ∧
      ∀ foot, made.2 = some foot → Edit.Footed u.tree made.1 foot := by
  unfold instantiate
  split
  · exact Ends.of_throw ⟨.refl s, fun _ => by simp⟩
  · rename_i slots _
    have hfill : Prepares (ofExcept (slots.fill s.fetchConstituent)) s fun _ u => u = s := by
      refine .of_ofExcept (fun _ _ => rfl) fun o ho => ?_
      obtain ⟨name, _, hname⟩ := Rose.fill_error slots ho
      exact fetchConstituent_error hname
    refine .get_bind (hfill.bind ?_)
    intro filled u _ hu
    subst u
    refine (graft_prepares _).bind ?_
    intro root u _ hroot
    obtain ⟨rfl, rfl⟩ := hroot
    generalize hc : filled.map Prod.fst = c
    -- the nodes of the template are numbered as those of the graft
    have hmade : ∀ entry ∈ filled.preorder.zipIdx s.tree.nodes.size,
        s.tree.nodes.size ≤ entry.2 ∧ entry.2 < (s.tree.graft c).1.nodes.size := by
      intro entry hentry
      refine ⟨List.le_snd_of_mem_zipIdx hentry, ?_⟩
      have hlt := List.snd_lt_add_of_mem_zipIdx hentry
      rwa [size_graft, ← hc, Rose.size_map, ← Rose.length_preorder]
    have hroot := (footed_graft h c (Nat.le_refl _) (by
      rw [size_graft]
      exact Nat.lt_add_of_pos_right c.size_pos)).root_known
    refine Ends.modify_bind (Ends.of_pure ⟨⟨.refl _, fun hn => hn.declare ?_⟩,
      hroot, ?_⟩)
    · intro entry hentry
      obtain ⟨⟨node, id⟩, hid, hname⟩ := List.mem_filterMap.mp hentry
      obtain ⟨_, _, rfl⟩ := Option.map_eq_some_iff.mp hname
      exact (hmade (node, id) hid).2
    · intro foot hfoot
      obtain ⟨⟨node, id⟩, hfound, rfl⟩ := Option.map_eq_some_iff.mp hfoot
      obtain ⟨hge, hlt⟩ := hmade (node, id) (List.mem_of_find?_eq_some hfound)
      exact footed_graft h c hge hlt

theorem instantiateWithFoot_prepares (template : Template) (h : s.tree.WellFormed) :
    Prepares (instantiateWithFoot template) s fun made u => Edit.Footed u.tree made.1 made.2 := by
  refine (instantiate_prepares template h).bind ?_
  intro made u _ hmade
  obtain ⟨root, foot⟩ := made
  cases foot with
  | none => exact Ends.of_throw ⟨.refl u, fun _ => by simp⟩
  | some foot => exact .of_pure (hmade.2 foot rfl)

/-! ## What is inserted -/

/-- What an arena has, it has when the tree has grown. -/
theorem lt_size_of_prepared {u : Surgery} {id : NodeId} (hu : Prepared s u)
    (hid : id < s.tree.nodes.size) : id < u.tree.nodes.size :=
  Nat.lt_of_lt_of_le hid hu.grown.size_le

theorem wellFormed_of_prepared {u : Surgery} (hu : Prepared s u) (h : s.tree.WellFormed) :
    u.tree.WellFormed :=
  (h.edits hu.grown.edits).1

theorem make_prepares (o : Operand) (h : s.tree.WellFormed) :
    Prepares (make o) s fun id u => id < u.tree.nodes.size := by
  cases o with
  | copyOf name =>
    have hfetch : Prepares (ofExcept (s.fetchConstituent name)) s fun _ u => u = s :=
      .of_ofExcept (fun _ _ => rfl) fun _ ho => fetchConstituent_error ho
    refine .get_bind (hfetch.bind ?_)
    intro c u _ hu
    subst u
    refine (graft_prepares c).mono ?_
    intro id u hid
    obtain ⟨rfl, rfl⟩ := hid
    show s.tree.nodes.size < (s.tree.graft c).1.nodes.size
    rw [size_graft]
    exact Nat.lt_add_of_pos_right c.size_pos
  | made template =>
    exact (instantiate_prepares template h).bind fun _ _ _ hmade => .of_pure hmade.1

theorem makeAll_prepares (os : List Operand) (h : s.tree.WellFormed) :
    Prepares (makeAll os) s fun ids u => ∀ id ∈ ids, id < u.tree.nodes.size := by
  induction os generalizing s with
  | nil => exact .of_pure (by simp)
  | cons o os ih =>
    refine (make_prepares o h).bind ?_
    intro id u hu hid
    refine (ih (wellFormed_of_prepared hu h)).bind fun ids v hv hids => .of_pure fun x hx => ?_
    rcases List.mem_cons.mp hx with rfl | hx
    · exact lt_size_of_prepared hv hid
    · exact hids x hx

end Step

end Constituency
