import Constituency.Proofs.Search.Branches
import Constituency.Proofs.Surgery.Names

/-!
# Why a name has no node

A script that was read for a pattern refers only to names that the pattern captures outside
negations and to those that the templates of earlier operations declare. So when one of its
operations reports a name without a node, either the name is one that the match leaves unbound, or
an earlier operation declares it and was switched off or given up (`Script.unresolved_names`). If
the pattern has neither disjunctions of relations nor optional conditions, every match binds all
names that the pattern captures outside negations, and only the second is possible.
-/

namespace Constituency

open Constituency.Surgery

/-! ## Reading scripts -/

/-- A template that was read. -/
def Template.IsRead (t : Template) : Prop := ∃ cs, parse cs = .ok t

theorem Template.IsRead.isMarked {t : Template} (h : t.IsRead) : t.IsMarked :=
  isMarked_of_parse h.choose_spec

/-- Whether the templates of an operation have to have feet. -/
def Operation.needsFoot : Operation → Bool
  | adjoin _ _ _ => true
  | createSubtree _ _ _ => true
  | ifExists _ _ guarded => guarded.needsFoot
  | _ => false

/-- An operation whose templates were read, with feet where they have to have them. -/
structure Operation.IsFormed (o : Operation) : Prop where
  read : ∀ t ∈ o.templates, t.IsRead
  footed : o.needsFoot = true → ∀ t ∈ o.templates, t.foot?.isSome = true

theorem Operation.IsFormed.marked {o : Operation} (h : o.IsFormed) :
    ∀ t ∈ o.templates, t.IsMarked :=
  fun t ht => (h.read t ht).isMarked

namespace ScriptReader

variable {s : Source} {p : Part}

/-- An operation that refers to known names only, and whose templates were read. -/
structure Source.Allows (s : Source) (o : Operation) : Prop where
  formed : o.IsFormed
  known : ∀ name ∈ o.askedNames, s.knows name = true

theorem checkNames_ok {names : List String} (h : checkNames s p names = .ok ()) :
    ∀ name ∈ names, s.knows name = true := by
  unfold checkNames at h
  split at h
  · exact absurd h (by simp)
  · rename_i hnone
    intro name hname
    simpa using List.find?_eq_none.mp hnone name hname

theorem reference_ok {name : String} (h : reference s p = .ok name) : s.knows name = true := by
  obtain ⟨_, hcheck, h⟩ := bind_eq_ok.mp h
  exact Except.ok.inj h ▸ checkNames_ok hcheck _ (List.mem_singleton_self _)

theorem references_ok {ps : List Part} {names : List String}
    (h : ps.mapM (reference s) = .ok names) : ∀ name ∈ names, s.knows name = true := by
  intro name hname
  obtain ⟨p, _, hp⟩ := (mem_of_mapM_eq_ok h).2 name hname
  exact reference_ok hp

theorem readTemplate_ok {needsFoot : Bool} {t : Template}
    (h : readTemplate s needsFoot p = .ok t) :
    t.IsRead ∧ (needsFoot = true → t.foot?.isSome = true) ∧
      ∀ name ∈ t.askedNames, s.knows name = true := by
  unfold readTemplate at h
  split at h
  · exact absurd h (by simp [Source.error])
  · rename_i t' ht
    dsimp only at h
    split at h
    · obtain ⟨_, herror, _⟩ := bind_eq_ok.mp h
      exact absurd herror (by simp [Source.error])
    · rename_i hfoot
      obtain ⟨_, hcheck, h⟩ := bind_eq_ok.mp h
      obtain rfl := Except.ok.inj h
      refine ⟨⟨_, ht⟩, fun hneeds => ?_, checkNames_ok hcheck⟩
      rw [Option.isSome_iff_ne_none]
      simpa [hneeds] using hfoot

theorem readOperand_ok {o : Operand} (h : readOperand s p = .ok o) :
    (∀ t, o = .made t → t.IsRead) ∧ ∀ name ∈ o.askedNames, s.knows name = true := by
  unfold readOperand at h
  split at h
  · obtain ⟨t, ht, rfl⟩ := map_eq_ok.mp h
    obtain ⟨hread, _, hknown⟩ := readTemplate_ok ht
    exact ⟨fun t' ht' => Operand.made.inj ht' ▸ hread, hknown⟩
  · obtain ⟨name, hname, rfl⟩ := map_eq_ok.mp h
    refine ⟨fun _ ht => absurd ht (by simp), fun other hother => ?_⟩
    exact List.mem_singleton.mp hother ▸ reference_ok hname
  · exact absurd h (by simp [Source.incomplete])

theorem readPlace_ok {place : Place} (h : readPlace s p = .ok place) :
    s.knows place.anchor = true := by
  unfold readPlace at h
  split at h
  · obtain ⟨anchor, hanchor, h⟩ := bind_eq_ok.mp h
    split at h
    · exact Except.ok.inj h ▸ reference_ok hanchor
    · split at h
      · exact Except.ok.inj h ▸ reference_ok hanchor
      · obtain ⟨n, _, h⟩ := bind_eq_ok.mp h
        exact Except.ok.inj h ▸ reference_ok hanchor
  · exact absurd h (by simp [Source.incomplete])

theorem readLabel_ok {how : Relabelling} (h : readLabel s p = .ok how) :
    ∀ name ∈ how.askedNames, s.knows name = true := by
  unfold readLabel at h
  split at h
  · split at h
    · exact absurd h (by simp [Source.error])
    · split at h
      · exact absurd h (by simp [Source.error])
      · obtain ⟨_, hcheck, h⟩ := bind_eq_ok.mp h
        exact Except.ok.inj h ▸ checkNames_ok hcheck
  · exact Except.ok.inj h ▸ fun _ hname => absurd hname (by simp [Relabelling.askedNames])
  · exact Except.ok.inj h ▸ fun _ hname => absurd hname (by simp [Relabelling.askedNames])
  · exact absurd h (by simp [Source.incomplete])

theorem readEdit_ok {o : Operation} (h : readEdit s p = .ok o) : s.Allows o := by
  -- operations without templates, and operations with one that needs a foot
  have hplain : ∀ {o : Operation}, o.templates = [] →
      (∀ name ∈ o.askedNames, s.knows name = true) → s.Allows o :=
    fun hnone hknown => ⟨⟨fun t ht => absurd (hnone ▸ ht) (by simp),
      fun _ t ht => absurd (hnone ▸ ht) (by simp)⟩, hknown⟩
  have hfooted : ∀ {o : Operation} {t : Template}, o.templates = [t] → t.IsRead →
      t.foot?.isSome = true → (∀ name ∈ o.askedNames, s.knows name = true) → s.Allows o :=
    fun hone hread hfoot hknown =>
      ⟨⟨fun t ht => List.mem_singleton.mp (hone ▸ ht) ▸ hread,
        fun _ t ht => List.mem_singleton.mp (hone ▸ ht) ▸ hfoot⟩, hknown⟩
  unfold readEdit at h
  split at h
  · obtain ⟨names, hnames, rfl⟩ := map_eq_ok.mp h
    exact hplain rfl (references_ok hnames)
  · obtain ⟨names, hnames, rfl⟩ := map_eq_ok.mp h
    exact hplain rfl (references_ok hnames)
  · obtain ⟨names, hnames, rfl⟩ := map_eq_ok.mp h
    exact hplain rfl (references_ok hnames)
  · obtain ⟨top, htop, h⟩ := bind_eq_ok.mp h
    obtain ⟨bottom, hbottom, h⟩ := bind_eq_ok.mp h
    obtain rfl := Except.ok.inj h
    exact hplain rfl (by simp [Operation.askedNames, reference_ok htop, reference_ok hbottom])
  · obtain ⟨name, hname, h⟩ := bind_eq_ok.mp h
    obtain ⟨how, hhow, h⟩ := bind_eq_ok.mp h
    obtain rfl := Except.ok.inj h
    exact hplain rfl (List.forall_mem_cons.mpr ⟨reference_ok hname, readLabel_ok hhow⟩)
  · obtain ⟨operand, hoperand, h⟩ := bind_eq_ok.mp h
    obtain ⟨place, hplace, h⟩ := bind_eq_ok.mp h
    obtain rfl := Except.ok.inj h
    obtain ⟨hread, hknown⟩ := readOperand_ok hoperand
    exact ⟨⟨fun t ht => hread t (Operation.mem_templates_insert.mp ht), fun hneeds =>
      absurd hneeds (by simp [Operation.needsFoot])⟩,
      List.forall_mem_cons.mpr ⟨readPlace_ok hplace, hknown⟩⟩
  · obtain ⟨name, hname, h⟩ := bind_eq_ok.mp h
    obtain ⟨place, hplace, h⟩ := bind_eq_ok.mp h
    obtain rfl := Except.ok.inj h
    exact hplain rfl (by simp [Operation.askedNames, reference_ok hname, readPlace_ok hplace])
  · obtain ⟨name, hname, h⟩ := bind_eq_ok.mp h
    obtain ⟨operands, hoperands, h⟩ := bind_eq_ok.mp h
    obtain rfl := Except.ok.inj h
    have hall : ∀ o ∈ operands, (∀ t, o = .made t → t.IsRead) ∧
        ∀ name ∈ o.askedNames, s.knows name = true := fun o ho => by
      obtain ⟨q, _, hq⟩ := (mem_of_mapM_eq_ok hoperands).2 o ho
      exact readOperand_ok hq
    refine ⟨⟨fun t ht => ?_, fun hneeds => absurd hneeds (by simp [Operation.needsFoot])⟩,
      List.forall_mem_cons.mpr ⟨reference_ok hname, fun x hx => ?_⟩⟩
    · exact (hall _ (Operation.mem_templates_replace.mp ht)).1 t rfl
    · obtain ⟨o, ho, hx⟩ := List.mem_flatMap.mp hx
      exact (hall o ho).2 x hx
  · obtain ⟨template, htemplate, h⟩ := bind_eq_ok.mp h
    obtain ⟨target, htarget, h⟩ := bind_eq_ok.mp h
    obtain rfl := Except.ok.inj h
    obtain ⟨hread, hfoot, hknown⟩ := readTemplate_ok htemplate
    exact hfooted rfl hread (hfoot rfl)
      (List.forall_mem_cons.mpr ⟨reference_ok htarget, hknown⟩)
  · obtain ⟨template, htemplate, h⟩ := bind_eq_ok.mp h
    obtain ⟨first, hfirst, h⟩ := bind_eq_ok.mp h
    obtain rfl := Except.ok.inj h
    obtain ⟨hread, hfoot, hknown⟩ := readTemplate_ok htemplate
    exact hfooted rfl hread (hfoot rfl)
      (List.forall_mem_cons.mpr ⟨reference_ok hfirst, hknown⟩)
  · obtain ⟨template, htemplate, h⟩ := bind_eq_ok.mp h
    obtain ⟨first, hfirst, h⟩ := bind_eq_ok.mp h
    obtain ⟨last, hlast, h⟩ := bind_eq_ok.mp h
    obtain rfl := Except.ok.inj h
    obtain ⟨hread, hfoot, hknown⟩ := readTemplate_ok htemplate
    exact hfooted rfl hread (hfoot rfl) (List.forall_mem_cons.mpr
      ⟨reference_ok hfirst, List.forall_mem_cons.mpr ⟨reference_ok hlast, hknown⟩⟩)
  · exact absurd h (by simp [Source.incomplete])

/-- A guard asks for no node, and has no templates. -/
theorem Source.Allows.ifExists {o : Operation} (h : s.Allows o) (name : String) (negated : Bool) :
    s.Allows (.ifExists name negated o) :=
  ⟨⟨h.formed.read, h.formed.footed⟩, h.known⟩

theorem readOperation_ok {o : Operation} (h : readOperation s p = .ok o) : s.Allows o := by
  induction p using readOperation.induct generalizing o with
  | case1 i cs j text word exists' name guarded ih =>
    rw [readOperation] at h
    obtain ⟨name, _, h⟩ := bind_eq_ok.mp h
    obtain ⟨inner, hinner, h⟩ := bind_eq_ok.mp h
    exact Except.ok.inj h ▸ (ih hinner).ifExists name false
  | case2 i cs j text word not exists' name guarded ih =>
    rw [readOperation] at h
    obtain ⟨name, _, h⟩ := bind_eq_ok.mp h
    obtain ⟨inner, hinner, h⟩ := bind_eq_ok.mp h
    exact Except.ok.inj h ▸ (ih hinner).ifExists name true
  | case3 i cs p hexists hnotExists =>
    rw [readOperation] at h
    · exact readEdit_ok h
    · exact hexists
    · exact hnotExists
  | case4 p hexists hnotExists hedit =>
    rw [readOperation] at h
    · exact absurd h (by simp [Source.incomplete])
    all_goals assumption

theorem knows_declare {names : List String} {name : String}
    (h : (s.declare names).knows name = true) : s.knows name = true ∨ name ∈ names := by
  obtain ⟨text, known⟩ := s
  cases known with
  | none => exact .inl rfl
  | some known =>
    have hmem : name ∈ known ++ names := List.contains_iff_mem.mp h
    exact (List.mem_append.mp hmem).imp List.contains_iff_mem.mpr id

/-- **An operation refers to what was known before all of them, or to what an earlier one
declares.** -/
theorem readOperations_ok {ps : List Part} {os : List Operation}
    (h : readOperations s ps = .ok os) {i : Nat} {o : Operation} (ho : os[i]? = some o) :
    o.IsFormed ∧ ∀ name ∈ o.askedNames,
      s.knows name = true ∨ ∃ j < i, ∃ o', os[j]? = some o' ∧ name ∈ o'.declaredNames := by
  induction ps generalizing s os i with
  | nil =>
    obtain rfl := Except.ok.inj h
    exact absurd ho (by simp)
  | cons p ps ih =>
    obtain ⟨first, hfirst, h⟩ := bind_eq_ok.mp h
    obtain ⟨others, hothers, h⟩ := bind_eq_ok.mp h
    obtain rfl := Except.ok.inj h
    cases i with
    | zero =>
      obtain rfl := Option.some.inj ho
      have hallows := readOperation_ok hfirst
      exact ⟨hallows.formed, fun name hname => .inl (hallows.known name hname)⟩
    | succ i =>
      obtain ⟨hformed, hknown⟩ := ih hothers ho
      refine ⟨hformed, fun name hname => ?_⟩
      rcases hknown name hname with hknows | ⟨j, hj, o', ho', hdeclared⟩
      · rcases knows_declare hknows with hknows | hdeclared
        · exact .inl hknows
        · exact .inr ⟨0, Nat.succ_pos i, first, rfl, hdeclared⟩
      · exact .inr ⟨j + 1, Nat.succ_lt_succ hj, o', ho', hdeclared⟩

end ScriptReader

theorem Operation.runAll_append (marks : Marks) (os os' : List Operation) (s : Surgery) :
    runAll marks (os ++ os') s =
      ((runAll marks os' (runAll marks os s).1).1,
        (runAll marks os s).2 ++ (runAll marks os' (runAll marks os s).1).2) := by
  induction os generalizing s with
  | nil => rfl
  | cons o os ih => simp only [List.cons_append, runAll, ih, List.append_assoc]

namespace Script

/-- **What the operations of a script for a pattern refer to.** -/
theorem parseFor_ok {p : Pattern} {text : String} {s : Script} (h : parseFor p text = .ok s)
    {i : Nat} {o : Operation} (ho : s.operations[i]? = some o) :
    o.IsFormed ∧ ∀ name ∈ o.askedNames, name ∈ p.captureNames ∨
      ∃ j < i, ∃ o', s.operations[j]? = some o' ∧ name ∈ o'.declaredNames := by
  obtain ⟨os, hos, h⟩ := bind_eq_ok.mp h
  obtain rfl := Except.ok.inj h
  unfold ScriptReader.operations at hos
  split at hos
  · exact absurd hos (by simp)
  · obtain ⟨hformed, hknown⟩ := ScriptReader.readOperations_ok hos ho
    exact ⟨hformed, fun name hname => (hknown name hname).imp_left List.contains_iff_mem.mp⟩

/-- What such an operation comes to in any state. -/
theorem named_of_parseFor {p : Pattern} {text : String} {s : Script}
    (h : parseFor p text = .ok s) {i : Nat} {o : Operation} (ho : s.operations[i]? = some o)
    (u : Surgery) :
    u.Named o.askedNames (if o.isSwitchedOff u then [] else o.declaredNames) (o.run s.marks u) :=
  Operation.runAs_named o.keyword s.marks o (parseFor_ok h ho).1.marked

/-! ## Operations one after the other -/

/-- The state in which the turn of an operation comes. -/
def before (s : Script) (t : Tree) (m : Match) (i : Nat) : Surgery :=
  (Operation.runAll s.marks (s.operations.take i) ⟨t, m, []⟩).1

/-- What an operation reports when its turn comes. -/
def reportsOf (s : Script) (t : Tree) (m : Match) (i : Nat) : List Diagnostic :=
  s.operations[i]?.elim [] fun o => (o.run s.marks (s.before t m i)).2

variable {s : Script} {t : Tree} {m : Match} {i j : Nat} {o : Operation}

theorem before_succ (ho : s.operations[i]? = some o) :
    s.before t m (i + 1) = (o.run s.marks (s.before t m i)).1 := by
  rw [before, List.take_add_one, ho, Option.toList_some, Operation.runAll_append]
  rfl

theorem reportsOf_eq (ho : s.operations[i]? = some o) :
    s.reportsOf t m i = (o.run s.marks (s.before t m i)).2 := by
  rw [reportsOf, ho]
  rfl

/-- The reports of an application are those of its operations. -/
theorem diagnostics_eq_flatMap (s : Script) (t : Tree) (m : Match) :
    (s.apply t m).diagnostics = (List.range s.operations.length).flatMap (s.reportsOf t m) := by
  have hfirst : ∀ k ≤ s.operations.length,
      (Operation.runAll s.marks (s.operations.take k) ⟨t, m, []⟩).2 =
        (List.range k).flatMap (s.reportsOf t m) := by
    intro k hk
    induction k with
    | zero => rfl
    | succ k ih =>
      have ho : s.operations[k]? = some s.operations[k] := List.getElem?_eq_getElem hk
      rw [List.take_add_one, ho, Option.toList_some, Operation.runAll_append,
        ih (Nat.le_of_succ_le hk), List.range_succ, List.flatMap_append, List.flatMap_singleton,
        reportsOf_eq ho]
      exact congrArg (_ ++ ·) (List.append_nil _)
  have hall := hfirst _ (Nat.le_refl _)
  rwa [List.take_length] at hall

/-- **Names keep their nodes from one operation to the next.** -/
theorem precedes_before {p : Pattern} {text : String} (h : parseFor p text = .ok s)
    (hij : i ≤ j) : (s.before t m i).Precedes (s.before t m j) := by
  induction j, hij using Nat.le_induction with
  | base => exact .refl _
  | succ j _ ih =>
    cases ho : s.operations[j]? with
    | none =>
      -- after the last operation nothing happens
      have hend : s.operations.length ≤ j := List.getElem?_eq_none_iff.mp ho
      have hsame : s.before t m (j + 1) = s.before t m j := by
        rw [before, before, List.take_of_length_le (Nat.le_succ_of_le hend),
          List.take_of_length_le hend]
      exact hsame ▸ ih
    | some o =>
      rw [before_succ ho]
      exact ih.trans (named_of_parseFor h ho _).precedes

/-- An operation that declares a name has been switched off or given up. -/
def Misses (s : Script) (t : Tree) (m : Match) (j : Nat) (name : String) : Prop :=
  ∃ o, s.operations[j]? = some o ∧ name ∈ o.declaredNames ∧
    (o.isSwitchedOff (s.before t m j) = true ∨ ∃ d ∈ s.reportsOf t m j, d.isFailure = true)

/-- Otherwise the name has a node from then on. -/
theorem misses_of_node?_eq_none {p : Pattern} {text : String} (h : parseFor p text = .ok s)
    {name : String} (hij : j < i) (ho : s.operations[j]? = some o) (hname : name ∈ o.declaredNames)
    (hnone : (s.before t m i).node? name = none) : s.Misses t m j name := by
  refine ⟨o, ho, hname, ?_⟩
  by_contra hdone
  obtain ⟨hon, hfine⟩ := not_or.mp hdone
  have hnamed := named_of_parseFor h ho (s.before t m j)
  rw [if_neg hon] at hnamed
  -- it was carried out, and its names keep their nodes up to the operation in question
  have hall : (s.before t m (j + 1)).HasAll o.declaredNames := by
    rw [before_succ ho]
    refine hnamed.declared fun d hd => ?_
    rw [← Bool.not_eq_true]
    exact fun hfailure => hfine ⟨d, reportsOf_eq ho ▸ hd, hfailure⟩
  have hlater := (precedes_before h hij).hasAll hall name hname
  rw [hnone] at hlater
  exact absurd hlater (by simp)

end Script

/-! ## Names without nodes -/

/-- Whether a match binds no node to a name that the pattern captures outside negations. -/
def Pattern.LeavesUnbound (p : Pattern) (m : Match) (name : String) : Prop :=
  ∃ v ∈ p.root.exposed, p.names[v]? = some name ∧ m.bindings.node? v = none

/-- A captured name without a node is that of a variable without a node. -/
theorem Pattern.leavesUnbound_of_node?_eq_none {source : String} {marks : Marks} {p : Pattern}
    (hp : Pattern.parse source marks = .ok p) {m : Match} (hm : p.Reports m) {name : String}
    (hname : name ∈ p.captureNames) (hnone : m.node? name = none) :
    p.LeavesUnbound m name ∧ p.root.isPlain = false := by
  obtain ⟨v, hv, hidx⟩ := parse_exposed hp hname
  obtain ⟨hlt, hget, _⟩ := List.idxOf?_eq_some_iff.mp hidx
  obtain ⟨hnames, hbound⟩ := hm.bound
  have hunbound : m.bindings.node? v = none := by
    rw [Match.node?, hnames, hidx] at hnone
    exact hnone
  refine ⟨⟨v, hv, by rw [List.getElem?_eq_getElem hlt, hget], hunbound⟩, ?_⟩
  by_contra hplain
  rw [Bool.not_eq_false] at hplain
  have hsome := hbound v (by rwa [NodePattern.alwaysBound_of_isPlain hplain]) hlt
  rw [hunbound] at hsome
  exact absurd hsome (by simp)

/-- **What it means that a name has no node.**

Let a script that was read for a pattern be applied to a match of the pattern, in the tree that it
was found in or in any other. The reports are those of the operations, one after the other. If one
of them reports a name without a node, then the match leaves the name unbound, which the pattern
captures outside negations, or an earlier operation, which declares the name, was switched off or
given up. In a pattern without disjunctions of relations and without optional conditions, only the
second is possible. -/
theorem Script.unresolved_names {source text : String} {marks : Marks} {p : Pattern} {s : Script}
    (hp : Pattern.parse source marks = .ok p) (hs : Script.parseFor p text = .ok s) {m : Match}
    (hm : p.Reports m) (t : Tree) :
    (s.apply t m).diagnostics = (List.range s.operations.length).flatMap (s.reportsOf t m) ∧
    ∀ i name, .unresolvedNode name ∈ s.reportsOf t m i →
      (p.LeavesUnbound m name ∨ ∃ j < i, s.Misses t m j name) ∧
      (p.root.isPlain = true → ∃ j < i, s.Misses t m j name) := by
  refine ⟨s.diagnostics_eq_flatMap t m, fun i name hreport => ?_⟩
  cases ho : s.operations[i]? with
  | none =>
    rw [reportsOf, ho] at hreport
    exact absurd hreport (by simp)
  | some o =>
    rw [reportsOf_eq ho] at hreport
    obtain ⟨hmem, hnone⟩ := (named_of_parseFor hs ho _).unresolved name hreport
    rcases (parseFor_ok hs ho).2 name hmem with hcaptured | ⟨j, hj, o', ho', hdeclared⟩
    · -- the name has no node now, so it had none when only the match gave nodes to names
      have hmatch : m.node? name = none :=
        (precedes_before (t := t) (m := m) hs (Nat.zero_le i)).node?_eq_none hnone
      obtain ⟨hunbound, hplain⟩ := Pattern.leavesUnbound_of_node?_eq_none hp hm hcaptured hmatch
      exact ⟨.inl hunbound, fun h => absurd (hplain.symm.trans h) (by simp)⟩
    · have hmisses := misses_of_node?_eq_none hs hj ho' hdeclared hnone
      exact ⟨.inr ⟨j, hj, hmisses⟩, fun _ => ⟨j, hj, hmisses⟩⟩

/-- In `(A)` the pattern leaves `b` unbound. So nothing is adjoined to it, and then `x`, which the
template declares, has no node either. -/
theorem Script.unresolved_names_of_optional :
    let t := Tree.ofConstituent (some (.node "A" []))
    let m : Match := ⟨0, [some 0, none], ["a", "b"]⟩
    ∃ p s, Pattern.parse "A=a ?< B=b" .standard = .ok p ∧
      Script.parseFor p "adjoin (X=x Y@) b; delete x" = .ok s ∧ p.Reports m ∧
      (s.apply t m).diagnostics = [.unresolvedNode "b", .unresolvedNode "x"] ∧
      p.LeavesUnbound m "b" ∧ s.Misses t m 0 "x" := by
  intro t m
  let found (p : Pattern) (s : Script) : Bool :=
    p.names = ["a", "b"] && s.operations.length == 2 &&
      (t.attached.flatMap ((Enumeration.start p .allBindings t).matchesAt t)).contains m &&
      s.reportsOf t m 0 = [.unresolvedNode "b"] && s.reportsOf t m 1 = [.unresolvedNode "x"]
  -- what can be computed: both texts are read, the match is found, and the operations report
  have hread : ((Pattern.parse "A=a ?< B=b" .standard).toOption.any fun p =>
      (Script.parseFor p "adjoin (X=x Y@) b; delete x").toOption.any (found p)) = true := by
    decide +kernel
  obtain ⟨p, hp, hread⟩ := exists_of_any hread
  obtain ⟨s, hs, hfound⟩ := exists_of_any hread
  simp only [found, Bool.and_eq_true, decide_eq_true_eq, beq_iff_eq,
    List.contains_iff_mem] at hfound
  obtain ⟨⟨⟨⟨hnames, hlength⟩, hmem⟩, hfirst⟩, hsecond⟩ := hfound
  have ht : t.WellFormed := Tree.wellFormed_ofConstituent _
  have hm : p.Reports m := Pattern.reports_of_mem_search (p.search_eq_flatMap ht _ ▸ hmem)
  obtain ⟨hreports, hexplained⟩ := unresolved_names hp hs hm t
  have hb := (hexplained 0 "b" (by rw [hfirst]; exact List.mem_singleton_self _)).1
  have hx := (hexplained 1 "x" (by rw [hsecond]; exact List.mem_singleton_self _)).1
  refine ⟨p, s, hp, hs, hm, ?_, ?_, ?_⟩
  · rw [hreports, hlength]
    show s.reportsOf t m 0 ++ (s.reportsOf t m 1 ++ []) = _
    rw [hfirst, hsecond]
    rfl
  · rcases hb with hb | ⟨_, hj, _⟩
    · exact hb
    · exact absurd hj (Nat.not_lt_zero _)
  · rcases hx with ⟨v, _, hv, _⟩ | ⟨j, hj, hmisses⟩
    · have hmem := List.mem_of_getElem? hv
      rw [hnames] at hmem
      exact absurd hmem (by decide)
    · obtain rfl := Nat.lt_one_iff.mp hj
      exact hmisses

end Constituency
