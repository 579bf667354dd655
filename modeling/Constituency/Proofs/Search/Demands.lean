import Mathlib.Data.Set.Basic
import Constituency.Proofs.Search.Variables

/-!
# What a solution asks of the variables

A search hands bindings from one part of a pattern to the next. Where a variable occurs first it is
bound, and where it occurs later it is compared, be it by a capture or by a reference. Without
negations, optional conditions and comparisons of labels it does not matter which of the two
happens: at each node that is gone to, some variables have to be bound to that node.

So a way through the pattern comes to a set of demands, pairs of a variable and a node, which are
collected without regard to the bindings made before (`NodePattern.Asks`). The solutions are the
bindings that the demands of some way lead to (`mem_solutions_iff`). Those of several conditions are
the union of theirs, in which nothing is left of the order.
-/

namespace Constituency

/-! ## Patterns without an order -/

/-- Whether a description compares nodes in no other way than with a single node that is asked
for. -/
def Description.isOrderFree (d : Description) : Bool :=
  match d.test with
  | .sameNode _ => !d.negated
  | .sameLabel _ => false
  | _ => true

/-- Whether a relation is followed in the same way under all bindings. -/
def Relation.isOrderFree (r : Relation) : Bool := r.references.isEmpty

mutual

/-- Whether a pattern has neither negations nor optional conditions, and no comparison that depends
on what has been bound before. -/
def NodePattern.isOrderFree : NodePattern → Bool
  | .mk d _ none => d.isOrderFree
  | .mk d _ (some c) => d.isOrderFree && c.isOrderFree

/-- Whether this is so for a condition. -/
def Condition.isOrderFree : Condition → Bool
  | .all cs => Condition.isOrderFreeAll cs
  | .any cs => Condition.isOrderFreeAll cs
  | .not _ => false
  | .optional _ => false
  | .related r p => r.isOrderFree && p.isOrderFree

/-- Whether this is so for several conditions. -/
def Condition.isOrderFreeAll : List Condition → Bool
  | [] => true
  | c :: cs => c.isOrderFree && Condition.isOrderFreeAll cs

end

/-! ## Demands -/

/-- That a variable is bound to a node. -/
abbrev Demand := VarId × NodeId

/-- The demand that a variable, if there is one, is bound to a node. -/
def Demand.of (v : Option VarId) (id : NodeId) : Set Demand := {x | v = some x.1 ∧ x.2 = id}

namespace Description

/-- The variable whose node is asked for. -/
def reference? (d : Description) : Option VarId :=
  match d.test with
  | .sameNode v => some v
  | _ => none

/-- Whether a node looks as described, apart from what is asked of variables. -/
def looksAlike (s : Scene) (id : NodeId) (d : Description) : Bool :=
  d.predicates.all (Predicate.holds s.tree id) &&
    match d.test with
    | .sameNode _ => true
    | test => test.holds s.tree s.marks [] id != d.negated

end Description

mutual

/-- What a way in which a node fits a pattern asks of the variables. -/
def NodePattern.Asks (s : Scene) : NodePattern → NodeId → Set Demand → Prop
  | .mk d v none, id, D =>
    d.looksAlike s id = true ∧ D = Demand.of d.reference? id ∪ Demand.of v id
  | .mk d v (some c), id, D =>
    d.looksAlike s id = true ∧
      ∃ D', c.Asks s id D' ∧ D = Demand.of d.reference? id ∪ Demand.of v id ∪ D'

/-- What a way in which a node meets a condition asks of the variables. -/
def Condition.Asks (s : Scene) : Condition → NodeId → Set Demand → Prop
  | .all cs, id, D => Condition.AsksAll s cs id D
  | .any cs, id, D => Condition.AsksAny s cs id D
  | .not _, _, _ => False
  | .optional _, _, _ => False
  | .related r p, id, D => ∃ x ∈ r.candidates s [] id, p.Asks s x D

/-- What a way in which a node meets all of several conditions asks of the variables. -/
def Condition.AsksAll (s : Scene) : List Condition → NodeId → Set Demand → Prop
  | [], _, D => D = ∅
  | c :: cs, id, D => ∃ D₁ D₂, c.Asks s id D₁ ∧ Condition.AsksAll s cs id D₂ ∧ D = D₁ ∪ D₂

/-- What a way in which a node meets one of several conditions asks of the variables. -/
def Condition.AsksAny (s : Scene) : List Condition → NodeId → Set Demand → Prop
  | [], _, _ => False
  | c :: cs, id, D => c.Asks s id D ∨ Condition.AsksAny s cs id D

end

/-! ## Bindings that meet demands -/

namespace Bindings

theorem ext_node? {b b' : Bindings} (hlength : b'.length = b.length)
    (h : ∀ v < b.length, b'.node? v = b.node? v) : b' = b := by
  refine List.ext_getElem hlength fun v hv hv' => ?_
  have hv := h v hv'
  rwa [node?, node?, List.getElem?_eq_getElem, List.getElem?_eq_getElem] at hv

/-- The second bindings are the first with those that are demanded. -/
structure Meets (b : Bindings) (D : Set Demand) (b' : Bindings) : Prop where
  length : b'.length = b.length
  node? : ∀ v < b.length, ∀ x, b'.node? v = some x ↔ b.node? v = some x ∨ (v, x) ∈ D

variable {b b₁ b' : Bindings} {D D' : Set Demand} {v : VarId} {id : NodeId}

/-- There are no two bindings that come of the same demands. -/
theorem Meets.unique (h : b.Meets D b') (h₁ : b.Meets D b₁) : b' = b₁ := by
  refine ext_node? (h.length.trans h₁.length.symm) fun v hv => ?_
  rw [h₁.length] at hv
  exact Option.ext fun x => (h.node? v hv x).trans (h₁.node? v hv x).symm

theorem meets_empty : b.Meets ∅ b' ↔ b' = b := by
  have hself : b.Meets ∅ b := ⟨rfl, fun v _ x => (or_iff_left (Set.notMem_empty _)).symm⟩
  exact ⟨fun h => h.unique hself, fun h => h ▸ hself⟩

theorem Meets.trans (h : b.Meets D b₁) (h' : b₁.Meets D' b') : b.Meets (D ∪ D') b' := by
  refine ⟨h'.length.trans h.length, fun v hv x => ?_⟩
  rw [h'.node? v (h.length ▸ hv), h.node? v hv, or_assoc]
  exact Iff.rfl

open Classical in
/-- What some of the demands lead to is on the way to what all of them lead to. -/
theorem Meets.split (h : b.Meets (D ∪ D') b') : ∃ b₁, b.Meets D b₁ ∧ b₁.Meets D' b' := by
  let b₁ : Bindings := (List.range b.length).map fun v =>
    (b'.node? v).filter fun x => b.node? v = some x ∨ (v, x) ∈ D
  have hlength : b₁.length = b.length := by simp [b₁]
  have hnode : ∀ v < b.length, ∀ x, b₁.node? v = some x ↔ b.node? v = some x ∨ (v, x) ∈ D := by
    intro v hv x
    have hget : b₁.node? v =
        (b'.node? v).filter fun x => b.node? v = some x ∨ (v, x) ∈ D := by
      rw [Bindings.node?, List.getElem?_map, List.getElem?_range hv]
      rfl
    rw [hget, Option.filter_eq_some_iff, h.node? v hv, decide_eq_true_iff]
    exact ⟨And.right, fun hx => ⟨hx.imp_right .inl, hx⟩⟩
  refine ⟨b₁, ⟨hlength, hnode⟩, h.length.trans hlength.symm, fun v hv x => ?_⟩
  rw [hlength] at hv
  rw [h.node? v hv, hnode v hv, or_assoc]
  exact Iff.rfl

theorem meets_union : b.Meets (D ∪ D') b' ↔ ∃ b₁, b.Meets D b₁ ∧ b₁.Meets D' b' :=
  ⟨Meets.split, fun ⟨_, h, h'⟩ => h.trans h'⟩

theorem node?_unbound (n : Nat) (v : VarId) : (unbound n).node? v = none := by
  rw [node?, unbound, List.getElem?_replicate]
  split <;> rfl

/-- Where nothing was bound before, the demands alone decide. -/
theorem Meets.node?_of_unbound {n : Nat} (h : (unbound n).Meets D b) (hv : v < n) (x : NodeId) :
    b.node? v = some x ↔ (v, x) ∈ D := by
  have hnode := h.node? v (List.length_replicate.symm ▸ hv) x
  rw [node?_unbound] at hnode
  exact hnode.trans (or_iff_right (by simp))

theorem node?_bind_of_ne {w : VarId} (h : v ≠ w) : (b.bind v id).node? w = b.node? w := by
  rw [node?, bind, List.getElem?_set_ne h, node?]

/-- **To capture a node is to meet the demand for it.** -/
theorem capture_iff {c : Option VarId} :
    b.capture id c = some b' ↔ b.Meets (Demand.of c id) b' := by
  cases c with
  | none =>
    have hnone : Demand.of none id = ∅ := Set.eq_empty_of_forall_notMem fun x hx => by
      exact absurd hx.1 (by simp)
    rw [hnone, meets_empty]
    exact ⟨fun h => (Option.some.inj h).symm, fun h => congrArg some h.symm⟩
  | some v =>
    -- a variable that is bound already has to be bound to the same node
    have hmeets : (∀ y, b.node? v = some y → y = id) →
        b.Meets (Demand.of (some v) id) (b.bind v id) := by
      intro hsame
      refine ⟨length_bind, fun w hw x => ?_⟩
      by_cases hvw : v = w
      · subst hvw
        rw [node?_bind_self hw]
        constructor
        · exact fun h => .inr ⟨rfl, (Option.some.inj h).symm⟩
        · rintro (h | ⟨_, h⟩)
          · rw [hsame x h]
          · exact congrArg some (Eq.symm h)
      · rw [node?_bind_of_ne hvw]
        refine (or_iff_left fun h => hvw ?_).symm
        exact Option.some.inj h.1
    have hall : (b.node? v).all (· == id) = true ↔ ∀ y, b.node? v = some y → y = id := by
      simp [Option.all_eq_true]
    rw [capture]
    constructor
    · intro h
      split at h
      · rename_i hbound
        obtain rfl := Option.some.inj h
        exact hmeets (hall.mp hbound)
      · exact absurd h (by simp)
    · intro h
      have hsame : ∀ y, b.node? v = some y → y = id := by
        intro y hy
        have hv : v < b.length := by
          by_contra hv
          rw [Bindings.node?, List.getElem?_eq_none (Nat.le_of_not_lt hv)] at hy
          exact absurd hy (by simp)
        have hself := (h.node? v hv id).mpr (.inr ⟨rfl, rfl⟩)
        exact Option.some.inj (((h.node? v hv y).mpr (.inl hy)).symm.trans hself)
      rw [if_pos (hall.mpr hsame), (hmeets hsame).unique h]

end Bindings

/-! ## Solutions -/

variable {s : Scene} {b b' : Bindings} {id : NodeId}

/-- To refer to a node is to capture it, if the reference holds. -/
theorem Description.bindReference_eq_capture {d : Description} {w : VarId}
    (hd : d.test = .sameNode w) (h : (b.node? w).all (· == id) = true) :
    some (d.bindReference b id) = b.capture id (some w) := by
  rw [Bindings.capture, if_pos h, Description.bindReference, hd]
  dsimp only
  cases hw : b.node? w with
  | none => rfl
  | some x =>
    -- nothing changes where the variable is bound to the node already
    rw [hw, Option.all_some, beq_iff_eq] at h
    obtain rfl := h
    rw [if_neg (by simp)]
    refine congrArg some (Bindings.ext_node? Bindings.length_bind fun v hv => ?_).symm
    by_cases hvw : w = v
    · subst hvw
      rw [Bindings.node?_bind_self hv, hw]
    · exact Bindings.node?_bind_of_ne hvw

/-- Without a comparison that depends on more, a node is entered by capturing it twice: for the
reference and for the variable that it is given to. -/
theorem Scene.enter_eq {d : Description} (hd : d.isOrderFree = true) (v : Option VarId) :
    s.enter d v id b =
      if d.looksAlike s id then (b.capture id d.reference?).bind (·.capture id v) else none := by
  obtain ⟨negated, test, predicates⟩ := d
  cases test with
  | any => rfl
  | oneOf atoms => rfl
  | sameLabel w => exact absurd hd (by simp [Description.isOrderFree])
  | sameNode w =>
    obtain rfl : negated = false := by simpa [Description.isOrderFree] using hd
    have hholds : (⟨false, .sameNode w, predicates⟩ : Description).holds s.tree s.marks b id =
        (predicates.all (Predicate.holds s.tree id) && (b.node? w).all (· == id)) := by
      rw [Description.holds, LabelTest.holds, Bool.bne_false]
    rw [Scene.enter, hholds, Description.looksAlike, Bool.and_true]
    cases predicates.all (Predicate.holds s.tree id) with
    | false => rfl
    | true =>
      rw [Bool.true_and, if_pos rfl]
      show _ = (b.capture id (some w)).bind _
      by_cases h : (b.node? w).all (· == id) = true
      · rw [if_pos h, ← Description.bindReference_eq_capture
          (d := ⟨false, .sameNode w, predicates⟩) rfl h]
        rfl
      · rw [if_neg h, Bindings.capture, if_neg h]
        rfl

/-- **To enter a node is to meet the demands for it.** -/
theorem Scene.enter_iff {d : Description} (hd : d.isOrderFree = true) {v : Option VarId} :
    s.enter d v id b = some b' ↔
      d.looksAlike s id = true ∧ b.Meets (Demand.of d.reference? id ∪ Demand.of v id) b' := by
  rw [Scene.enter_eq hd, Bindings.meets_union]
  cases d.looksAlike s id with
  | false => exact ⟨fun h => absurd h (by simp), fun h => absurd h.1 (by simp)⟩
  | true =>
    rw [if_pos rfl, Option.bind_eq_some_iff, and_iff_right rfl]
    exact exists_congr fun b₁ => and_congr Bindings.capture_iff Bindings.capture_iff

/-- A test that refers to no variable is one of the label alone. -/
theorem LabelTest.cases_of_references {test : LabelTest} (h : test.references = []) :
    test = .any ∨ ∃ atoms, test = .oneOf atoms := by
  cases test with
  | any => exact .inl rfl
  | oneOf atoms => exact .inr ⟨atoms, rfl⟩
  | sameNode v => exact absurd h (by simp [references])
  | sameLabel v => exact absurd h (by simp [references])

/-- An order-free relation has the same candidates under all bindings. -/
theorem Relation.candidates_of_isOrderFree {r : Relation} (hr : r.isOrderFree = true)
    (b : Bindings) (a : NodeId) : r.candidates s b a = r.candidates s [] a := by
  have hholds : ∀ {d : Description}, d.test.references = [] →
      d.holds s.tree s.marks b = d.holds s.tree s.marks [] := by
    rintro ⟨negated, test, predicates⟩ hd
    obtain rfl | ⟨atoms, rfl⟩ := LabelTest.cases_of_references hd <;> rfl
  cases r with
  | dominatesVia d =>
    rw [candidates, candidates, hholds (List.isEmpty_iff.mp hr)]
  | dominatedByVia d =>
    rw [candidates, candidates, hholds (List.isEmpty_iff.mp hr)]
  | _ => rfl

mutual

/-- **The solutions are the bindings that meet the demands of some way through the pattern.** -/
theorem NodePattern.mem_solutions_iff : ∀ (p : NodePattern), p.isOrderFree = true →
    ∀ (id : NodeId) (b b' : Bindings),
    b' ∈ p.solutions s id b ↔ ∃ D, p.Asks s id D ∧ b.Meets D b'
  | .mk d v none, hp, id, b, b' => by
    rw [NodePattern.solutions, Option.mem_toList, Scene.enter_iff hp]
    constructor
    · rintro ⟨hd, h⟩
      exact ⟨_, ⟨hd, rfl⟩, h⟩
    · rintro ⟨_, ⟨hd, rfl⟩, h⟩
      exact ⟨hd, h⟩
  | .mk d v (some c), hp, id, b, b' => by
    obtain ⟨hd, hc⟩ := Bool.and_eq_true_iff.mp hp
    have hmem : b' ∈ (NodePattern.mk d v (some c)).solutions s id b ↔
        ∃ b₁, s.enter d v id b = some b₁ ∧ b' ∈ c.solutions s id b₁ := by
      rw [NodePattern.solutions]
      cases s.enter d v id b with
      | none => exact ⟨fun h => absurd h List.not_mem_nil, fun ⟨_, h, _⟩ => absurd h (by simp)⟩
      | some b₁ => exact ⟨fun h => ⟨b₁, rfl, h⟩, fun ⟨_, h, hb⟩ => Option.some.inj h ▸ hb⟩
    rw [hmem]
    constructor
    · rintro ⟨b₁, henter, hb'⟩
      obtain ⟨hlooks, hown⟩ := (Scene.enter_iff hd).mp henter
      obtain ⟨D, hD, hmeets⟩ := (c.mem_solutions_iff hc id b₁ b').mp hb'
      exact ⟨_, ⟨hlooks, D, hD, rfl⟩, hown.trans hmeets⟩
    · rintro ⟨_, ⟨hlooks, D, hD, rfl⟩, hmeets⟩
      obtain ⟨b₁, hown, hrest⟩ := hmeets.split
      exact ⟨b₁, (Scene.enter_iff hd).mpr ⟨hlooks, hown⟩,
        (c.mem_solutions_iff hc id b₁ b').mpr ⟨D, hD, hrest⟩⟩

theorem Condition.mem_solutions_iff : ∀ (c : Condition), c.isOrderFree = true →
    ∀ (id : NodeId) (b b' : Bindings),
    b' ∈ c.solutions s id b ↔ ∃ D, c.Asks s id D ∧ b.Meets D b'
  | .all cs, hc, id, b, b' => Condition.mem_solutionsAll_iff cs hc id b b'
  | .any cs, hc, id, b, b' => Condition.mem_solutionsAny_iff cs hc id b b'
  | .not c, hc, id, b, b' => absurd hc Bool.false_ne_true
  | .optional c, hc, id, b, b' => absurd hc Bool.false_ne_true
  | .related r p, hc, id, b, b' => by
    obtain ⟨hr, hp⟩ := Bool.and_eq_true_iff.mp hc
    rw [Condition.solutions, List.mem_flatMap, Relation.candidates_of_isOrderFree hr]
    constructor
    · rintro ⟨x, hx, hb'⟩
      obtain ⟨D, hD, hmeets⟩ := (p.mem_solutions_iff hp x b b').mp hb'
      exact ⟨D, ⟨x, hx, hD⟩, hmeets⟩
    · rintro ⟨D, ⟨x, hx, hD⟩, hmeets⟩
      exact ⟨x, hx, (p.mem_solutions_iff hp x b b').mpr ⟨D, hD, hmeets⟩⟩

theorem Condition.mem_solutionsAll_iff : ∀ (cs : List Condition),
    Condition.isOrderFreeAll cs = true → ∀ (id : NodeId) (b b' : Bindings),
    b' ∈ Condition.solutionsAll s cs id b ↔ ∃ D, Condition.AsksAll s cs id D ∧ b.Meets D b'
  | [], _, id, b, b' => by
    rw [Condition.solutionsAll, List.mem_singleton, ← Bindings.meets_empty]
    exact ⟨fun h => ⟨∅, rfl, h⟩, fun ⟨_, hD, h⟩ => hD ▸ h⟩
  | c :: cs, hcs, id, b, b' => by
    obtain ⟨hc, hcs⟩ := Bool.and_eq_true_iff.mp hcs
    rw [Condition.solutionsAll, List.mem_flatMap]
    constructor
    · rintro ⟨b₁, hb₁, hb'⟩
      obtain ⟨D₁, hD₁, hmeets₁⟩ := (c.mem_solutions_iff hc id b b₁).mp hb₁
      obtain ⟨D₂, hD₂, hmeets₂⟩ := (Condition.mem_solutionsAll_iff cs hcs id b₁ b').mp hb'
      exact ⟨D₁ ∪ D₂, ⟨D₁, D₂, hD₁, hD₂, rfl⟩, hmeets₁.trans hmeets₂⟩
    · rintro ⟨_, ⟨D₁, D₂, hD₁, hD₂, rfl⟩, hmeets⟩
      obtain ⟨b₁, hmeets₁, hmeets₂⟩ := hmeets.split
      exact ⟨b₁, (c.mem_solutions_iff hc id b b₁).mpr ⟨D₁, hD₁, hmeets₁⟩,
        (Condition.mem_solutionsAll_iff cs hcs id b₁ b').mpr ⟨D₂, hD₂, hmeets₂⟩⟩

theorem Condition.mem_solutionsAny_iff : ∀ (cs : List Condition),
    Condition.isOrderFreeAll cs = true → ∀ (id : NodeId) (b b' : Bindings),
    b' ∈ Condition.solutionsAny s cs id b ↔ ∃ D, Condition.AsksAny s cs id D ∧ b.Meets D b'
  | [], _, id, b, b' => ⟨fun h => absurd h List.not_mem_nil, fun ⟨_, hD, _⟩ => hD.elim⟩
  | c :: cs, hcs, id, b, b' => by
    obtain ⟨hc, hcs⟩ := Bool.and_eq_true_iff.mp hcs
    rw [Condition.solutionsAny, List.mem_append, c.mem_solutions_iff hc,
      Condition.mem_solutionsAny_iff cs hcs, ← exists_or]
    exact exists_congr fun D => or_and_right.symm

end

end Constituency
