import Constituency.Proofs.Pattern.Captures
import Constituency.Proofs.Pattern.RoundTrip
import Constituency.Proofs.Search.Demands
import Constituency.Proofs.Search.Paths

/-!
# The order of conditions

A pattern can be written in several orders. Reordering its conditions changes the order in which
matches are found, how often, and which variable comes first and so has which number. What is not
changed, in a pattern without an order, is the set of matches by name.

The reason is that a reordered pattern asks the same of the variables
(`NodePattern.Reordered.asks_iff`) and a renumbered one asks it of the variables with the new
numbers (`NodePattern.asks_rename`). What is bound to a name is what is asked of its variable
(`Pattern.mem_namedMatches_iff`).
-/

namespace Constituency

/-! ## Reordering -/

mutual

/-- A pattern in which conditions have been reordered. -/
inductive NodePattern.Reordered : NodePattern → NodePattern → Prop
  | bare {d : Description} {v : Option VarId} :
      NodePattern.Reordered (.mk d v none) (.mk d v none)
  | described {d : Description} {v : Option VarId} {c c' : Condition} :
      Condition.Reordered c c' → NodePattern.Reordered (.mk d v (some c)) (.mk d v (some c'))

/-- A condition whose parts have been reordered, at any depth. -/
inductive Condition.Reordered : Condition → Condition → Prop
  | all {cs cs' : List Condition} :
      Condition.ReorderedAll cs cs' → Condition.Reordered (.all cs) (.all cs')
  | any {cs cs' : List Condition} :
      Condition.ReorderedAll cs cs' → Condition.Reordered (.any cs) (.any cs')
  | not {c c' : Condition} : Condition.Reordered c c' → Condition.Reordered (.not c) (.not c')
  | optional {c c' : Condition} :
      Condition.Reordered c c' → Condition.Reordered (.optional c) (.optional c')
  | related {r : Relation} {p p' : NodePattern} :
      NodePattern.Reordered p p' → Condition.Reordered (.related r p) (.related r p')

/-- The same conditions in another order, each of them reordered. -/
inductive Condition.ReorderedAll : List Condition → List Condition → Prop
  | nil : Condition.ReorderedAll [] []
  | insert {c c' : Condition} {cs front back : List Condition} :
      Condition.Reordered c c' → Condition.ReorderedAll cs (front ++ back) →
        Condition.ReorderedAll (c :: cs) (front ++ c' :: back)

end

mutual

theorem NodePattern.Reordered.refl : ∀ p : NodePattern, p.Reordered p
  | .mk _ _ none => .bare
  | .mk _ _ (some c) => .described (Condition.Reordered.refl c)

theorem Condition.Reordered.refl : ∀ c : Condition, c.Reordered c
  | .all cs => .all (Condition.ReorderedAll.refl cs)
  | .any cs => .any (Condition.ReorderedAll.refl cs)
  | .not c => .not (Condition.Reordered.refl c)
  | .optional c => .optional (Condition.Reordered.refl c)
  | .related _ p => .related (NodePattern.Reordered.refl p)

theorem Condition.ReorderedAll.refl : ∀ cs : List Condition, Condition.ReorderedAll cs cs
  | [] => .nil
  | c :: cs => by
    show Condition.ReorderedAll (c :: cs) ([] ++ c :: cs)
    exact .insert (Condition.Reordered.refl c) (Condition.ReorderedAll.refl cs)

end

/-- A list of conditions is reordered by permuting it. -/
theorem Condition.reorderedAll_of_perm {cs cs' : List Condition} (h : cs.Perm cs') :
    Condition.ReorderedAll cs cs' := by
  induction cs generalizing cs' with
  | nil => exact List.nil_perm.mp h ▸ .nil
  | cons c cs ih =>
    obtain ⟨front, back, rfl⟩ := List.append_of_mem (h.subset (List.mem_cons_self ..))
    exact .insert (.refl c) (ih (h.trans List.perm_middle).cons_inv)

/-! ## What is asked for -/

variable {s : Scene} {id : NodeId} {D : Set Demand} {f : VarId → VarId}

namespace Condition

/-- Conditions ask for what one of them asks for and what the others do, whichever is looked at
first. -/
theorem asksAll_insert {c : Condition} {front back : List Condition} :
    AsksAll s (front ++ c :: back) id D ↔
      ∃ D₁ D₂, c.Asks s id D₁ ∧ AsksAll s (front ++ back) id D₂ ∧ D = D₁ ∪ D₂ := by
  induction front generalizing D with
  | nil => exact Iff.rfl
  | cons a front ih =>
    constructor
    · rintro ⟨E, _, hE, hrest, rfl⟩
      obtain ⟨D₁, D₂, hD₁, hD₂, rfl⟩ := ih.mp hrest
      exact ⟨D₁, E ∪ D₂, hD₁, ⟨E, D₂, hE, hD₂, rfl⟩, Set.union_left_comm E D₁ D₂⟩
    · rintro ⟨D₁, _, hD₁, ⟨E, D₂, hE, hD₂, rfl⟩, rfl⟩
      exact ⟨E, D₁ ∪ D₂, hE, ih.mpr ⟨D₁, D₂, hD₁, hD₂, rfl⟩, Set.union_left_comm D₁ E D₂⟩

theorem asksAny_insert {c : Condition} {front back : List Condition} :
    AsksAny s (front ++ c :: back) id D ↔ c.Asks s id D ∨ AsksAny s (front ++ back) id D := by
  induction front with
  | nil => exact Iff.rfl
  | cons a front ih => exact (or_congr_right ih).trans or_left_comm

theorem isOrderFreeAll_insert {c : Condition} {front back : List Condition} :
    isOrderFreeAll (front ++ c :: back) = (c.isOrderFree && isOrderFreeAll (front ++ back)) := by
  induction front with
  | nil => rfl
  | cons a front ih =>
    rw [List.cons_append, List.cons_append, isOrderFreeAll, isOrderFreeAll, ih, Bool.and_left_comm]

end Condition

mutual

theorem NodePattern.Reordered.isOrderFree : ∀ {p q : NodePattern}, p.Reordered q →
    q.isOrderFree = p.isOrderFree
  | _, _, .bare => rfl
  | _, _, .described h => congrArg (_ && ·) h.isOrderFree

theorem Condition.Reordered.isOrderFree : ∀ {c c' : Condition}, c.Reordered c' →
    c'.isOrderFree = c.isOrderFree
  | _, _, .all h => h.isOrderFree
  | _, _, .any h => h.isOrderFree
  | _, _, .not _ => rfl
  | _, _, .optional _ => rfl
  | _, _, .related h => congrArg (_ && ·) h.isOrderFree

theorem Condition.ReorderedAll.isOrderFree : ∀ {cs cs' : List Condition},
    Condition.ReorderedAll cs cs' → Condition.isOrderFreeAll cs' = Condition.isOrderFreeAll cs
  | _, _, .nil => rfl
  | _, _, .insert hc hcs => by
    rw [Condition.isOrderFreeAll_insert, hc.isOrderFree, hcs.isOrderFree, Condition.isOrderFreeAll]

end

mutual

/-- **A reordered pattern asks the same of the variables.** -/
theorem NodePattern.Reordered.asks_iff : ∀ {p q : NodePattern}, p.Reordered q →
    ∀ (id : NodeId) (D : Set Demand), q.Asks s id D ↔ p.Asks s id D
  | _, _, .bare, _, _ => Iff.rfl
  | _, _, .described h, id, _ =>
    and_congr_right fun _ => exists_congr fun D' => and_congr_left' (h.asks_iff id D')

theorem Condition.Reordered.asks_iff : ∀ {c c' : Condition}, c.Reordered c' →
    ∀ (id : NodeId) (D : Set Demand), c'.Asks s id D ↔ c.Asks s id D
  | _, _, .all h, id, D => h.asksAll_iff id D
  | _, _, .any h, id, D => h.asksAny_iff id D
  | _, _, .not _, _, _ => Iff.rfl
  | _, _, .optional _, _, _ => Iff.rfl
  | _, _, .related h, _, D => exists_congr fun x => and_congr_right fun _ => h.asks_iff x D

theorem Condition.ReorderedAll.asksAll_iff : ∀ {cs cs' : List Condition},
    Condition.ReorderedAll cs cs' →
    ∀ (id : NodeId) (D : Set Demand), Condition.AsksAll s cs' id D ↔ Condition.AsksAll s cs id D
  | _, _, .nil, _, _ => Iff.rfl
  | _, _, .insert hc hcs, id, _ =>
    Condition.asksAll_insert.trans (exists_congr fun D₁ => exists_congr fun D₂ =>
      and_congr (hc.asks_iff id D₁) (and_congr_left' (hcs.asksAll_iff id D₂)))

theorem Condition.ReorderedAll.asksAny_iff : ∀ {cs cs' : List Condition},
    Condition.ReorderedAll cs cs' →
    ∀ (id : NodeId) (D : Set Demand), Condition.AsksAny s cs' id D ↔ Condition.AsksAny s cs id D
  | _, _, .nil, _, _ => Iff.rfl
  | _, _, .insert hc hcs, id, D =>
    Condition.asksAny_insert.trans (or_congr (hc.asks_iff id D) (hcs.asksAny_iff id D))

end

/-! ## Other numbers -/

namespace Demand

/-- Demands with other variables. -/
def rename (f : VarId → VarId) (D : Set Demand) : Set Demand := {x | ∃ v, f v = x.1 ∧ (v, x.2) ∈ D}

theorem rename_empty (f : VarId → VarId) : rename f ∅ = ∅ :=
  Set.eq_empty_of_forall_notMem fun _ ⟨_, _, h⟩ => h

theorem rename_union (f : VarId → VarId) (D D' : Set Demand) :
    rename f (D ∪ D') = rename f D ∪ rename f D' :=
  Set.ext fun _ => (exists_congr fun _ => and_or_left).trans exists_or

theorem rename_of (f : VarId → VarId) (v : Option VarId) (id : NodeId) :
    rename f (of v id) = of (v.map f) id := by
  refine Set.ext fun ⟨w, y⟩ => ?_
  cases v with
  | none => simp [rename, of]
  | some v => simp [rename, of]

end Demand

namespace Description

theorem isOrderFree_rename (f : VarId → VarId) (d : Description) :
    (d.rename f).isOrderFree = d.isOrderFree := by
  obtain ⟨negated, test, predicates⟩ := d
  cases test <;> rfl

theorem reference?_rename (f : VarId → VarId) (d : Description) :
    (d.rename f).reference? = d.reference?.map f := by
  obtain ⟨negated, test, predicates⟩ := d
  cases test <;> rfl

theorem looksAlike_rename (f : VarId → VarId) (d : Description) :
    (d.rename f).looksAlike s id = d.looksAlike s id := by
  obtain ⟨negated, test, predicates⟩ := d
  cases test <;> rfl

end Description

/-- An order-free relation mentions no variables. -/
theorem Relation.rename_of_isOrderFree {r : Relation} (hr : r.isOrderFree = true) :
    r.rename f = r := by
  have hd : ∀ {d : Description}, d.test.references = [] → d.rename f = d := by
    rintro ⟨negated, test, predicates⟩ hd
    obtain rfl | ⟨atoms, rfl⟩ := LabelTest.cases_of_references hd <;> rfl
  cases r with
  | dominatesVia d => exact congrArg dominatesVia (hd (List.isEmpty_iff.mp hr))
  | dominatedByVia d => exact congrArg dominatedByVia (hd (List.isEmpty_iff.mp hr))
  | _ => rfl

theorem Relation.isOrderFree_rename (f : VarId → VarId) (r : Relation) :
    (r.rename f).isOrderFree = r.isOrderFree := by
  have hd : ∀ d : Description,
      (d.rename f).test.references.isEmpty = d.test.references.isEmpty := by
    intro d
    obtain ⟨negated, test, predicates⟩ := d
    cases test <;> rfl
  cases r with
  | dominatesVia d => exact hd d
  | dominatedByVia d => exact hd d
  | _ => rfl

mutual

theorem NodePattern.isOrderFree_rename : ∀ p : NodePattern,
    (p.rename f).isOrderFree = p.isOrderFree
  | .mk d v none => d.isOrderFree_rename f
  | .mk d v (some c) => by
    rw [NodePattern.rename, NodePattern.isOrderFree, NodePattern.isOrderFree,
      d.isOrderFree_rename, c.isOrderFree_rename]

theorem Condition.isOrderFree_rename : ∀ c : Condition, (c.rename f).isOrderFree = c.isOrderFree
  | .all cs => Condition.isOrderFreeAll_rename cs
  | .any cs => Condition.isOrderFreeAll_rename cs
  | .not _ => rfl
  | .optional _ => rfl
  | .related r p => by
    rw [Condition.rename, Condition.isOrderFree, Condition.isOrderFree, r.isOrderFree_rename,
      p.isOrderFree_rename]

theorem Condition.isOrderFreeAll_rename : ∀ cs : List Condition,
    Condition.isOrderFreeAll (Condition.renameAll f cs) = Condition.isOrderFreeAll cs
  | [] => rfl
  | c :: cs => by
    rw [Condition.renameAll, Condition.isOrderFreeAll, Condition.isOrderFreeAll,
      c.isOrderFree_rename, Condition.isOrderFreeAll_rename cs]

end

theorem Description.rename_self (d : Description) : d.rename (fun v => v) = d := by
  obtain ⟨negated, test, predicates⟩ := d
  cases test <;> rfl

theorem Relation.rename_self (r : Relation) : r.rename (fun v => v) = r := by
  cases r with
  | dominatesVia d => exact congrArg dominatesVia d.rename_self
  | dominatedByVia d => exact congrArg dominatedByVia d.rename_self
  | _ => rfl

mutual

/-- A pattern with the same variables is the same. -/
theorem NodePattern.rename_self : ∀ p : NodePattern, p.rename (fun v => v) = p
  | .mk d v none => by rw [NodePattern.rename, d.rename_self, Option.map_id']
  | .mk d v (some c) => by
    rw [NodePattern.rename, d.rename_self, Option.map_id', c.rename_self]

theorem Condition.rename_self : ∀ c : Condition, c.rename (fun v => v) = c
  | .all cs => congrArg Condition.all (Condition.renameAll_self cs)
  | .any cs => congrArg Condition.any (Condition.renameAll_self cs)
  | .not c => congrArg Condition.not c.rename_self
  | .optional c => congrArg Condition.optional c.rename_self
  | .related r p => congrArg₂ Condition.related r.rename_self p.rename_self

theorem Condition.renameAll_self : ∀ cs : List Condition,
    Condition.renameAll (fun v => v) cs = cs
  | [] => rfl
  | c :: cs => congrArg₂ List.cons c.rename_self (Condition.renameAll_self cs)

end

/-- What is asked at a node itself is asked of the renamed variables. -/
theorem Demand.rename_described (f : VarId → VarId) (d : Description) (v : Option VarId)
    (id : NodeId) :
    rename f (of d.reference? id ∪ of v id) = of (d.rename f).reference? id ∪ of (v.map f) id := by
  rw [rename_union, rename_of, rename_of, d.reference?_rename]

mutual

/-- **A pattern with other variables asks the same of these.** -/
theorem NodePattern.asks_rename : ∀ (p : NodePattern), p.isOrderFree = true →
    ∀ (id : NodeId) (D : Set Demand),
    (p.rename f).Asks s id D ↔ ∃ D', p.Asks s id D' ∧ D = Demand.rename f D'
  | .mk d v none, _, id, D => by
    rw [NodePattern.rename, NodePattern.Asks, d.looksAlike_rename, ← Demand.rename_described]
    constructor
    · rintro ⟨hd, rfl⟩
      exact ⟨_, ⟨hd, rfl⟩, rfl⟩
    · rintro ⟨_, ⟨hd, rfl⟩, rfl⟩
      exact ⟨hd, rfl⟩
  | .mk d v (some c), hp, id, D => by
    obtain ⟨_, hc⟩ := Bool.and_eq_true_iff.mp hp
    rw [NodePattern.rename, NodePattern.Asks, d.looksAlike_rename, ← Demand.rename_described]
    constructor
    · rintro ⟨hd, E, hE, rfl⟩
      obtain ⟨E', hE', rfl⟩ := (c.asks_rename hc id E).mp hE
      exact ⟨_, ⟨hd, E', hE', rfl⟩, (Demand.rename_union ..).symm⟩
    · rintro ⟨_, ⟨hd, E', hE', rfl⟩, rfl⟩
      exact ⟨hd, _, (c.asks_rename hc id _).mpr ⟨E', hE', rfl⟩, Demand.rename_union ..⟩

theorem Condition.asks_rename : ∀ (c : Condition), c.isOrderFree = true →
    ∀ (id : NodeId) (D : Set Demand),
    (c.rename f).Asks s id D ↔ ∃ D', c.Asks s id D' ∧ D = Demand.rename f D'
  | .all cs, hc, id, D => Condition.asksAll_rename cs hc id D
  | .any cs, hc, id, D => Condition.asksAny_rename cs hc id D
  | .not _, hc, _, _ => absurd hc Bool.false_ne_true
  | .optional _, hc, _, _ => absurd hc Bool.false_ne_true
  | .related r p, hc, id, D => by
    obtain ⟨hr, hp⟩ := Bool.and_eq_true_iff.mp hc
    rw [Condition.rename, Condition.Asks, Relation.rename_of_isOrderFree hr]
    constructor
    · rintro ⟨x, hx, hD⟩
      obtain ⟨D', hD', rfl⟩ := (p.asks_rename hp x D).mp hD
      exact ⟨D', ⟨x, hx, hD'⟩, rfl⟩
    · rintro ⟨D', ⟨x, hx, hD'⟩, rfl⟩
      exact ⟨x, hx, (p.asks_rename hp x _).mpr ⟨D', hD', rfl⟩⟩

theorem Condition.asksAll_rename : ∀ (cs : List Condition), Condition.isOrderFreeAll cs = true →
    ∀ (id : NodeId) (D : Set Demand),
    Condition.AsksAll s (Condition.renameAll f cs) id D ↔
      ∃ D', Condition.AsksAll s cs id D' ∧ D = Demand.rename f D'
  | [], _, id, D => by
    rw [Condition.renameAll, Condition.AsksAll, ← Demand.rename_empty f]
    exact ⟨fun h => ⟨∅, rfl, h⟩, fun ⟨_, hD', h⟩ => hD' ▸ h⟩
  | c :: cs, hcs, id, D => by
    obtain ⟨hc, hcs⟩ := Bool.and_eq_true_iff.mp hcs
    rw [Condition.renameAll, Condition.AsksAll]
    constructor
    · rintro ⟨_, _, hD₁, hD₂, rfl⟩
      obtain ⟨E₁, hE₁, rfl⟩ := (c.asks_rename hc id _).mp hD₁
      obtain ⟨E₂, hE₂, rfl⟩ := (Condition.asksAll_rename cs hcs id _).mp hD₂
      exact ⟨E₁ ∪ E₂, ⟨E₁, E₂, hE₁, hE₂, rfl⟩, (Demand.rename_union ..).symm⟩
    · rintro ⟨_, ⟨E₁, E₂, hE₁, hE₂, rfl⟩, rfl⟩
      exact ⟨_, _, (c.asks_rename hc id _).mpr ⟨E₁, hE₁, rfl⟩,
        (Condition.asksAll_rename cs hcs id _).mpr ⟨E₂, hE₂, rfl⟩, Demand.rename_union ..⟩

theorem Condition.asksAny_rename : ∀ (cs : List Condition), Condition.isOrderFreeAll cs = true →
    ∀ (id : NodeId) (D : Set Demand),
    Condition.AsksAny s (Condition.renameAll f cs) id D ↔
      ∃ D', Condition.AsksAny s cs id D' ∧ D = Demand.rename f D'
  | [], _, _, _ => ⟨False.elim, fun ⟨_, h, _⟩ => h⟩
  | c :: cs, hcs, id, D => by
    obtain ⟨hc, hcs⟩ := Bool.and_eq_true_iff.mp hcs
    rw [Condition.renameAll, Condition.AsksAny, c.asks_rename hc,
      Condition.asksAny_rename cs hcs, ← exists_or]
    exact exists_congr fun D' => or_and_right.symm

end

/-! ## A reference and a capture -/

namespace Condition

/-- The condition of having a child for which one variable stands, with the node of another beside
it. -/
def childBeside (v w : VarId) : Condition :=
  .related .parentOf (.mk ⟨false, .any, []⟩ (some v)
    (some (.related .sister (.mk ⟨false, .sameNode w, []⟩ none none))))

/-- Whether a condition is this one. -/
def isChildBeside (v w : VarId) : Condition → Bool
  | .related .parentOf (.mk ⟨false, .any, []⟩ (some a)
      (some (.related .sister (.mk ⟨false, .sameNode b, []⟩ none none)))) => a = v && b = w
  | _ => false

theorem eq_of_isChildBeside {v w : VarId} {c : Condition} (h : c.isChildBeside v w = true) :
    c = childBeside v w := by
  unfold isChildBeside at h
  split at h
  · simp only [Bool.and_eq_true, decide_eq_true_eq] at h
    obtain ⟨rfl, rfl⟩ := h
    rfl
  · exact absurd h Bool.false_ne_true

end Condition

/-- Whether a pattern asks for a node with a label and two conditions, in this order. -/
def Pattern.asksForBoth (label : String) (names : List String) (first second : Condition → Bool) :
    Pattern → Bool
  | ⟨_, .mk ⟨false, .oneOf [.literal l], []⟩ none (some (.all [c, c'])), ns, _, marks⟩ =>
    l = label && first c && second c' && ns = names && marks = .standard
  | _ => false

theorem Pattern.eq_of_asksForBoth {label : String} {names : List String}
    {first second : Condition → Bool} {c c' : Condition} (hc : ∀ a, first a = true → a = c)
    (hc' : ∀ a, second a = true → a = c') {p : Pattern}
    (h : p.asksForBoth label names first second = true) :
    p.root = .mk ⟨false, .oneOf [.literal label], []⟩ none (some (.all [c, c'])) ∧
      p.names = names ∧ p.marks = .standard := by
  unfold asksForBoth at h
  split at h
  · rename_i a a' _ _ _
    simp only [Bool.and_eq_true, decide_eq_true_eq] at h
    obtain ⟨⟨⟨⟨rfl, ha⟩, ha'⟩, rfl⟩, rfl⟩ := h
    rw [hc a ha, hc' a' ha']
    exact ⟨rfl, rfl, rfl⟩
  · exact absurd h Bool.false_ne_true

/-! ## Matches by name -/

namespace Pattern

variable {p q : Pattern} {t : Tree}

/-- The root of a match and what it binds to each name. -/
abbrev NamedMatch := NodeId × (String → Option NodeId)

/-- The matches that a search reports, with the variables known by name. -/
def namedMatches (p : Pattern) (t : Tree) : Set NamedMatch :=
  {x | ∃ m ∈ p.search .allBindings t, x = (m.root, m.node?)}

/-- The number in one pattern of the variable that has a given number in another. -/
def renumbering (p q : Pattern) (v : VarId) : VarId :=
  match p.names[v]? with
  | some name => q.names.idxOf name
  | none => v

/-- The second pattern is the first with conditions reordered. The variables are the same, numbered
in whatever order they come. -/
structure Reordering (p q : Pattern) : Prop where
  marks : q.marks = p.marks
  names : q.names.Perm p.names
  root : (p.root.rename (p.renumbering q)).Reordered q.root

/-- A variable keeps its name when it gets another number. -/
theorem getElem?_renumbering (h : q.names.Perm p.names) (v : VarId) :
    q.names[p.renumbering q v]? = p.names[v]? := by
  unfold renumbering
  split
  · rename_i name hname
    exact (List.getElem?_idxOf (h.mem_iff.mpr (List.mem_of_getElem? hname))).trans hname.symm
  · rename_i hnone
    rw [hnone]
    exact List.getElem?_eq_none (h.length_eq ▸ List.getElem?_eq_none_iff.mp hnone)

/-- Conditions may be reordered without a change of numbers. -/
theorem reordering_of_reordered (hnames : p.names.Nodup) {root : NodePattern}
    (h : p.root.Reordered root) : p.Reordering { p with root := root } := by
  have hsame : p.renumbering { p with root := root } = fun v => v := by
    funext v
    unfold renumbering
    split
    · rename_i name hname
      obtain ⟨hv, rfl⟩ := List.getElem?_eq_some_iff.mp hname
      exact hnames.idxOf_getElem v hv
    · rfl
  refine ⟨rfl, .refl _, ?_⟩
  rwa [hsame, p.root.rename_self]

/-- What is bound to the names when certain demands are met. -/
def Binds (p : Pattern) (D : Set Demand) (bound : String → Option NodeId) : Prop :=
  ∀ name y, bound name = some y ↔ ∃ v, p.names[v]? = some name ∧ (v, y) ∈ D

theorem Binds.unique {D : Set Demand} {bound bound' : String → Option NodeId}
    (h : p.Binds D bound) (h' : p.Binds D bound') : bound' = bound :=
  funext fun name => Option.ext fun y => (h' name y).trans (h name y).symm

/-- Demands with other numbers bind the same names. -/
theorem binds_rename_iff (h : q.names.Perm p.names) {D : Set Demand}
    {bound : String → Option NodeId} :
    q.Binds (Demand.rename (p.renumbering q) D) bound ↔ p.Binds D bound := by
  refine forall_congr' fun name => forall_congr' fun y => iff_congr Iff.rfl ?_
  constructor
  · rintro ⟨_, hname, v, rfl, hD⟩
    exact ⟨v, (getElem?_renumbering h v).symm.trans hname, hD⟩
  · rintro ⟨v, hname, hD⟩
    exact ⟨_, (getElem?_renumbering h v).trans hname, v, rfl, hD⟩

section names

variable {D : Set Demand} {b : Bindings} {bound : String → Option NodeId}

theorem idxOf?_eq_some_iff (hnames : p.names.Nodup) {name : String} {v : VarId} :
    p.names.idxOf? name = some v ↔ p.names[v]? = some name := by
  refine ⟨getElem?_of_idxOf?, fun h => ?_⟩
  obtain ⟨hv, rfl⟩ := List.getElem?_eq_some_iff.mp h
  rw [idxOf?_of_mem (List.getElem_mem hv), hnames.idxOf_getElem v hv]

/-- Bindings that meet demands bind the names accordingly. -/
theorem binds_of_meets (hnames : p.names.Nodup)
    (h : (Bindings.unbound p.names.length).Meets D b) (root : NodeId) :
    p.Binds D (⟨root, b, p.names⟩ : Match).node? := by
  intro name y
  rw [Match.node?, Option.bind_eq_some_iff]
  refine exists_congr fun v => ?_
  rw [idxOf?_eq_some_iff hnames]
  exact and_congr_right fun hv => h.node?_of_unbound (List.getElem?_eq_some_iff.mp hv).1 y

/-- Demands that bind the names to single nodes are met by some bindings. -/
theorem Binds.meets (hnames : p.names.Nodup) (h : p.Binds D bound) :
    (Bindings.unbound p.names.length).Meets D (p.names.map bound) := by
  have hlength : (Bindings.unbound p.names.length).length = p.names.length := List.length_replicate
  refine ⟨(List.length_map ..).trans hlength.symm, fun v hv y => ?_⟩
  rw [hlength] at hv
  have hname := List.getElem?_eq_getElem hv
  have hbound : Bindings.node? (p.names.map bound) v = bound p.names[v] := by
    rw [Bindings.node?, List.getElem?_map, hname]
    rfl
  rw [hbound, h, Bindings.node?_unbound, or_iff_right (by simp)]
  constructor
  · rintro ⟨w, hw, hD⟩
    rwa [(List.getElem?_inj hv hnames).mp (hname.trans hw.symm)]
  · exact fun hD => ⟨v, hname, hD⟩

end names

/-- **The matches by name are what the ways through the pattern ask for.** -/
theorem mem_namedMatches_iff (ht : t.WellFormed) (hnames : p.names.Nodup)
    (hfree : p.root.isOrderFree = true) {x : NamedMatch} :
    x ∈ p.namedMatches t ↔
      x.1 ∈ t.attached ∧ ∃ D, p.root.Asks (p.sceneOf t) x.1 D ∧ p.Binds D x.2 := by
  constructor
  · rintro ⟨⟨root, b, names⟩, hm, rfl⟩
    obtain ⟨hroot, hb, rfl⟩ := (mem_search_iff ht).mp hm
    obtain ⟨D, hD, hmeets⟩ := (p.root.mem_solutions_iff hfree root _ b).mp hb
    exact ⟨hroot, D, hD, binds_of_meets hnames hmeets root⟩
  · obtain ⟨root, bound⟩ := x
    rintro ⟨hroot, D, hD, hbinds⟩
    have hmeets := hbinds.meets hnames
    have hb : p.names.map bound ∈ p.solutionsAt t root :=
      (p.root.mem_solutions_iff hfree root _ _).mpr ⟨D, hD, hmeets⟩
    refine ⟨⟨root, p.names.map bound, p.names⟩, (mem_search_iff ht).mpr ⟨hroot, hb, rfl⟩, ?_⟩
    exact congrArg (root, ·) ((binds_of_meets hnames hmeets root).unique hbinds)

/-- **Reordering the conditions of a pattern keeps its matches.**

Let a pattern be read that has neither negations nor optional conditions, in which a node is
compared with others only by asking for that of a variable, and nothing refers to a variable from
within a chain. Whatever conjunctions and disjunctions in it are reordered, and however its
variables are numbered then, a search reports the same roots with the same nodes for the names. It
does not matter whether a variable is captured first or referred to first. -/
theorem namedMatches_reordered {source : String} {marks : Marks} (ht : t.WellFormed)
    (hp : Pattern.parse source marks = .ok p) (hfree : p.root.isOrderFree = true)
    (hq : p.Reordering q) : q.namedMatches t = p.namedMatches t := by
  have hnames : p.names.Nodup := names_nodup hp
  have hfree' : (p.root.rename (p.renumbering q)).isOrderFree = true :=
    p.root.isOrderFree_rename.trans hfree
  have hscene : q.sceneOf t = p.sceneOf t := by rw [sceneOf, sceneOf, hq.marks]
  refine Set.ext fun x => ?_
  rw [mem_namedMatches_iff ht hnames hfree,
    mem_namedMatches_iff ht (hq.names.nodup_iff.mpr hnames) (hq.root.isOrderFree.trans hfree'),
    hscene]
  refine and_congr_right fun _ => ?_
  constructor
  · rintro ⟨_, hasks, hbinds⟩
    obtain ⟨D, hD, rfl⟩ := (p.root.asks_rename hfree _ _).mp ((hq.root.asks_iff _ _).mp hasks)
    exact ⟨D, hD, (binds_rename_iff hq.names).mp hbinds⟩
  · rintro ⟨D, hD, hbinds⟩
    exact ⟨_, (hq.root.asks_iff _ _).mpr ((p.root.asks_rename hfree _ _).mpr ⟨D, hD, rfl⟩),
      (binds_rename_iff hq.names).mpr hbinds⟩

/-- In `(S (NP x) (VP y))` the same nodes are found for `a` and `b` if the reference to `a` is
written first. The first variable is then `b`. -/
theorem namedMatches_reordered_reference :
    let t := Tree.ofConstituent (some (.node "S" [.node "NP" [.node "x" []],
      .node "VP" [.node "y" []]]))
    t.WellFormed ∧ ∃ p q, Pattern.parse "S < NP=a < (__=b $ =a)" .standard = .ok p ∧
      Pattern.parse "S < (__=b $ =a) < NP=a" .standard = .ok q ∧
      p.root.isOrderFree = true ∧ p.Reordering q ∧
      ⟨0, [some 1, some 3], ["a", "b"]⟩ ∈ p.search .allBindings t ∧
      ⟨0, [some 3, some 1], ["b", "a"]⟩ ∈ q.search .allBindings t ∧
      q.namedMatches t = p.namedMatches t := by
  intro t
  have ht : t.WellFormed := Tree.wellFormed_ofConstituent _
  have hread : (Pattern.parse "S < NP=a < (__=b $ =a)" .standard).toOption.any
      (asksForBoth "S" ["a", "b"] (·.isNamedChild "NP" 0) (·.isChildBeside 1 0)) = true := by
    decide +kernel
  have hread' : (Pattern.parse "S < (__=b $ =a) < NP=a" .standard).toOption.any
      (asksForBoth "S" ["b", "a"] (·.isChildBeside 0 1) (·.isNamedChild "NP" 1)) = true := by
    decide +kernel
  obtain ⟨⟨source, _, _, visible, _⟩, hp, hasks⟩ := exists_parse hread
  obtain ⟨⟨source', _, _, visible', _⟩, hq, hasks'⟩ := exists_parse hread'
  obtain ⟨rfl, rfl, rfl⟩ := eq_of_asksForBoth (fun _ => Condition.eq_of_isNamedChild)
    (fun _ => Condition.eq_of_isChildBeside) hasks
  obtain ⟨rfl, rfl, rfl⟩ := eq_of_asksForBoth (fun _ => Condition.eq_of_isChildBeside)
    (fun _ => Condition.eq_of_isNamedChild) hasks'
  let root (cs : List Condition) : NodePattern :=
    .mk ⟨false, .oneOf [.literal "S"], []⟩ none (some (.all cs))
  let captured : NodePattern := root [.namedChild "NP" 0, .childBeside 1 0]
  let referred : NodePattern := root [.childBeside 0 1, .namedChild "NP" 1]
  have hreordering : Reordering ⟨source, captured, ["a", "b"], visible, .standard⟩
      ⟨source', referred, ["b", "a"], visible', .standard⟩ :=
    ⟨rfl, .swap .., .described (.all (Condition.reorderedAll_of_perm (.swap ..)))⟩
  have hm : [some 1, some 3] ∈
      captured.solutions ⟨t, Index.build t, .standard⟩ 0 (.unbound 2) := by
    decide
  have hm' : [some 3, some 1] ∈
      referred.solutions ⟨t, Index.build t, .standard⟩ 0 (.unbound 2) := by
    decide
  exact ⟨ht, _, _, hp, hq, rfl, hreordering, (mem_search_iff ht).mpr ⟨by decide, hm, rfl⟩,
    (mem_search_iff ht).mpr ⟨by decide, hm', rfl⟩, namedMatches_reordered ht hp rfl hreordering⟩

end Pattern

end Constituency
