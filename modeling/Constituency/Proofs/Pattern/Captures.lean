import Mathlib.Data.List.Basic
import Constituency.Pattern.Reader
import Constituency.Proofs.Grammar.Shape

/-!
# Which variables matches bind

A match never binds the variables that stand in negations only. It may leave others unbound: those
of an optional condition that was passed over, and those of the other alternatives of a disjunction.
So there are the variables outside negations (`NodePattern.exposed`) and those that every match
binds (`NodePattern.alwaysBound`), and in a pattern without disjunctions of relations and without
optional conditions they are the same (`NodePattern.alwaysBound_of_isPlain`).

The names that a match can bind are collected from the parse of a pattern, where the pattern itself
is read from the parse by other functions. They agree because of the shape of a parse: captures
stand in descriptions, and nothing but what is read as a node or as the middle of a chain has
descriptions in it. So every name that a match can bind is one of a variable outside negations
(`Pattern.parse_exposed`).
-/

namespace Constituency

mutual

/-- The variables that stand outside negations. -/
def NodePattern.exposed : NodePattern → List VarId
  | .mk _ v none => v.toList
  | .mk _ v (some c) => v.toList ++ c.exposed

/-- The variables of a condition that stand outside negations. -/
def Condition.exposed : Condition → List VarId
  | .all cs => Condition.exposedAll cs
  | .any cs => Condition.exposedAll cs
  | .not _ => []
  | .optional c => c.exposed
  | .related _ p => p.exposed

/-- The variables of several conditions that stand outside negations. -/
def Condition.exposedAll : List Condition → List VarId
  | [] => []
  | c :: cs => c.exposed ++ Condition.exposedAll cs

end

mutual

/-- The variables that a node of every match is bound to. -/
def NodePattern.alwaysBound : NodePattern → List VarId
  | .mk _ v none => v.toList
  | .mk _ v (some c) => v.toList ++ c.alwaysBound

/-- The variables that are bound wherever a condition is met. -/
def Condition.alwaysBound : Condition → List VarId
  | .all cs => Condition.alwaysBoundAll cs
  | .any _ => []
  | .not _ => []
  | .optional _ => []
  | .related _ p => p.alwaysBound

/-- The variables that are bound wherever all of several conditions are met. -/
def Condition.alwaysBoundAll : List Condition → List VarId
  | [] => []
  | c :: cs => c.alwaysBound ++ Condition.alwaysBoundAll cs

end

mutual

/-- Whether a pattern has neither disjunctions of relations nor optional conditions. -/
def NodePattern.isPlain : NodePattern → Bool
  | .mk _ _ none => true
  | .mk _ _ (some c) => c.isPlain

/-- Whether there are neither disjunctions nor optional conditions in a condition. -/
def Condition.isPlain : Condition → Bool
  | .all cs => Condition.isPlainAll cs
  | .any _ => false
  | .not c => c.isPlain
  | .optional _ => false
  | .related _ p => p.isPlain

/-- Whether there are neither disjunctions nor optional conditions in several conditions. -/
def Condition.isPlainAll : List Condition → Bool
  | [] => true
  | c :: cs => c.isPlain && Condition.isPlainAll cs

end

mutual

/-- **In a plain pattern, the variables outside negations are bound by every match.** -/
theorem NodePattern.alwaysBound_of_isPlain : ∀ {p : NodePattern}, p.isPlain = true →
    p.alwaysBound = p.exposed
  | .mk _ _ none, _ => rfl
  | .mk _ _ (some c), h => by
    rw [NodePattern.alwaysBound, NodePattern.exposed, c.alwaysBound_of_isPlain h]

theorem Condition.alwaysBound_of_isPlain : ∀ (c : Condition), c.isPlain = true →
    c.alwaysBound = c.exposed
  | .all cs, h => by
    rw [Condition.alwaysBound, Condition.exposed, Condition.alwaysBoundAll_of_isPlain cs h]
  | .any _, h => absurd h (by simp [Condition.isPlain])
  | .not _, _ => rfl
  | .optional _, h => absurd h (by simp [Condition.isPlain])
  | .related _ p, h => by
    rw [Condition.alwaysBound, Condition.exposed, NodePattern.alwaysBound_of_isPlain h]

theorem Condition.alwaysBoundAll_of_isPlain : ∀ (cs : List Condition),
    Condition.isPlainAll cs = true → Condition.alwaysBoundAll cs = Condition.exposedAll cs
  | [], _ => rfl
  | c :: cs, h => by
    obtain ⟨hc, hcs⟩ := Bool.and_eq_true_iff.mp h
    rw [Condition.alwaysBoundAll, Condition.exposedAll, c.alwaysBound_of_isPlain hc,
      Condition.alwaysBoundAll_of_isPlain cs hcs]

end

namespace Condition

theorem alwaysBoundAll_eq_flatMap (cs : List Condition) :
    alwaysBoundAll cs = cs.flatMap alwaysBound := by
  induction cs with
  | nil => rfl
  | cons c cs ih => rw [alwaysBoundAll, ih, List.flatMap_cons]

theorem exposedAll_eq_flatMap (cs : List Condition) : exposedAll cs = cs.flatMap exposed := by
  induction cs with
  | nil => rfl
  | cons c cs ih => rw [exposedAll, ih, List.flatMap_cons]

/-- The conditions that a condition is the conjunction of. -/
def conjuncts : Condition → List Condition
  | .all cs => cs
  | c => [c]

theorem merge_eq (c d : Condition) : c.merge d = .all (c.conjuncts ++ d.conjuncts) := by
  cases c <;> cases d <;> rfl

theorem exposedAll_conjuncts (c : Condition) : exposedAll c.conjuncts = c.exposed := by
  cases c <;> simp [conjuncts, exposedAll, exposed]

theorem exposed_merge (c d : Condition) : (c.merge d).exposed = c.exposed ++ d.exposed := by
  rw [merge_eq, exposed, exposedAll_eq_flatMap, List.flatMap_append, ← exposedAll_eq_flatMap,
    ← exposedAll_eq_flatMap, exposedAll_conjuncts, exposedAll_conjuncts]

end Condition

theorem NodePattern.mem_exposed_and {p : NodePattern} {c : Condition} {v : VarId} :
    v ∈ (p.and c).exposed ↔ v ∈ p.exposed ∨ v ∈ c.exposed := by
  obtain ⟨d, w, _ | k⟩ := p
  · rw [NodePattern.and, exposed, exposed, List.mem_append]
  · rw [NodePattern.and, exposed, exposed, Condition.exposed_merge, List.mem_append,
      List.mem_append, List.mem_append, or_assoc]

/-! ## Readers -/

section reader

variable {ε α β : Type}

/-- A reader that goes on does so with what was read. -/
theorem bind_eq_ok {x : Except ε α} {f : α → Except ε β} {b : β} :
    x >>= f = .ok b ↔ ∃ a, x = .ok a ∧ f a = .ok b := by
  cases x with
  | error e => exact ⟨fun h => absurd h (by simp [bind, Except.bind]), fun ⟨_, h, _⟩ =>
      absurd h (by simp)⟩
  | ok a => exact ⟨fun h => ⟨a, rfl, h⟩, fun ⟨_, ha, h⟩ => Except.ok.inj ha ▸ h⟩

theorem map_eq_ok {x : Except ε α} {f : α → β} {b : β} :
    f <$> x = .ok b ↔ ∃ a, x = .ok a ∧ f a = b := by
  cases x with
  | error e => exact ⟨fun h => absurd h (by simp [Functor.map, Except.map]), fun ⟨_, h, _⟩ =>
      absurd h (by simp)⟩
  | ok a => exact ⟨fun h => ⟨a, rfl, Except.ok.inj h⟩, fun ⟨_, ha, h⟩ => by
      rw [Except.ok.inj ha, ← h]
      rfl⟩

theorem both_eq_ok {γ : Type} {x : Except ε α} {y : Except ε β} {f : α → β → γ} {c : γ} :
    (do let a ← x; let b ← y; return f a b) = .ok c ↔
      ∃ a b, x = .ok a ∧ y = .ok b ∧ c = f a b := by
  simp only [bind_eq_ok]
  constructor
  · rintro ⟨a, ha, b, hb, hc⟩
    exact ⟨a, b, ha, hb, (Except.ok.inj hc).symm⟩
  · rintro ⟨a, b, ha, hb, rfl⟩
    exact ⟨a, ha, b, hb, rfl⟩

/-- What can be computed of a reading tells that something was read. -/
theorem exists_of_any {x : Except ε α} {f : α → Bool} (h : x.toOption.any f = true) :
    ∃ a, x = .ok a ∧ f a = true := by
  cases x with
  | error e => exact absurd h (by simp [Except.toOption])
  | ok a => exact ⟨a, rfl, h⟩

/-- Whatever the first reading comes to, the second comes to as well. -/
def Agree (x y : Except ε α) : Prop := ∀ a, x = .ok a → y = .ok a

theorem Agree.refl (x : Except ε α) : Agree x x := fun _ h => h

theorem agree_error (e : ε) (y : Except ε α) : Agree (.error e) y :=
  fun _ h => absurd h (by simp)

theorem Agree.bind {x y : Except ε α} {f g : α → Except ε β} (hx : Agree x y)
    (hf : ∀ a, Agree (f a) (g a)) : Agree (x >>= f) (y >>= g) := by
  intro b h
  obtain ⟨a, ha, h⟩ := bind_eq_ok.mp h
  exact bind_eq_ok.mpr ⟨a, hx a ha, hf a b h⟩

theorem Agree.map {x y : Except ε α} {f : α → β} (hx : Agree x y) : Agree (f <$> x) (f <$> y) := by
  intro b h
  obtain ⟨a, ha, h⟩ := map_eq_ok.mp h
  exact map_eq_ok.mpr ⟨a, hx a ha, h⟩

/-- Several things are read one by one. -/
theorem Agree.mapM {f g : α → Except ε β} {m : α → α} (hread : ∀ a, Agree (f a) (g (m a)))
    (as : List α) : Agree (as.mapM f) ((as.map m).mapM g) := by
  induction as with
  | nil => exact .refl _
  | cons a as ih =>
    rw [List.map_cons, List.mapM_cons, List.mapM_cons]
    exact (hread a).bind fun b => ih.bind fun bs => .refl _

theorem mem_of_mapM_eq_ok {f : α → Except ε β} {as : List α} {bs : List β}
    (h : as.mapM f = .ok bs) :
    (∀ a ∈ as, ∃ b ∈ bs, f a = .ok b) ∧ ∀ b ∈ bs, ∃ a ∈ as, f a = .ok b := by
  induction as generalizing bs with
  | nil =>
    rw [List.mapM_nil] at h
    obtain rfl := Except.ok.inj h
    exact ⟨fun _ ha => absurd ha (by simp), fun _ hb => absurd hb (by simp)⟩
  | cons a as ih =>
    rw [List.mapM_cons] at h
    obtain ⟨b, hb, h⟩ := bind_eq_ok.mp h
    obtain ⟨bs, hbs, h⟩ := bind_eq_ok.mp h
    obtain rfl := Except.ok.inj h
    obtain ⟨hleft, hright⟩ := ih hbs
    constructor
    · refine List.forall_mem_cons.mpr ⟨⟨b, List.mem_cons_self .., hb⟩, fun x hx => ?_⟩
      obtain ⟨y, hy, hxy⟩ := hleft x hx
      exact ⟨y, List.mem_cons_of_mem b hy, hxy⟩
    · refine List.forall_mem_cons.mpr ⟨⟨a, List.mem_cons_self .., hb⟩, fun y hy => ?_⟩
      obtain ⟨x, hx, hxy⟩ := hright y hy
      exact ⟨x, List.mem_cons_of_mem a hx, hxy⟩

end reader

/-! ## Where captures stand -/

namespace PatternRule

/-- Whether a parse of a rule can have a capture in it. -/
def bearsCaptures : PatternRule → Bool
  | pattern | nodeExpr | disjunction | conjunction | term | relation | relationOp | chainOp
  | description | capture => true
  | _ => false

theorem not_bearsCaptures_of_calls {r : PatternRule} (h : r.bearsCaptures = false) :
    ∀ q ∈ (body r).calls, q.bearsCaptures = false := by
  cases r <;> first | exact absurd h (by decide) | decide

end PatternRule

namespace PatternReader

open Grammar

/-- Whether a name is given to a node in a part, outside negations. -/
def Exposes (p : Part) (name : String) : Prop :=
  ∃ m ∈ mentions false p, m.captures = true ∧ m.negated = false ∧ m.name = name

theorem mentionsAll_eq_flatMap (negated : Bool) (ps : List Part) :
    mentionsAll negated ps = ps.flatMap (mentions negated) := by
  induction ps with
  | nil => rfl
  | cons p ps ih => rw [mentionsAll, ih, List.flatMap_cons]

/-- Inside a negation every name is in it. -/
theorem mentions_negated : (∀ (p : Part), ∀ m ∈ mentions true p, m.negated = true) ∧
    ∀ (ps : List Part), ∀ m ∈ mentionsAll true ps, m.negated = true := by
  have hall := mentions.mutual_induct
    (fun negated p => negated = true → ∀ m ∈ mentions negated p, m.negated = true)
    (fun negated ps => negated = true → ∀ m ∈ mentionsAll negated ps, m.negated = true)
    ?negation ?capture ?sameNode ?sameLabel ?other ?nil ?cons
  · exact ⟨fun p => hall.1 true p rfl, fun ps => hall.2 true ps rfl⟩
  case negation =>
    intro negated _ _ _ _ _ ps ih _ m hm
    rw [mentions] at hm
    exact ih rfl m hm
  case capture | sameNode | sameLabel =>
    intro negated i cs ps hnegated m hm
    rw [mentions] at hm
    rw [List.mem_singleton.mp hm]
    exact hnegated
  case other =>
    intro negated rule i cs ps hterm hcapture hsameNode hsameLabel ih hnegated m hm
    rw [mentions] at hm
    · exact ih hnegated m hm
    all_goals assumption
  case nil => exact fun _ _ m hm => absurd hm (by simp [mentionsAll])
  case cons =>
    intro negated p ps hp hps hnegated m hm
    rw [mentionsAll] at hm
    exact (List.mem_append.mp hm).elim (hp hnegated m) (hps hnegated m)

/-- A capture gives its own name; of other parts, one of their parts does. -/
theorem exposes_cases {r : PatternRule} {i : Nat} {cs : List Char} {ps : List Part} {name : String}
    (h : Exposes (.node r i cs ps) name) :
    (r = .capture ∧ name = nameOf (.node r i cs ps)) ∨ ∃ q ∈ ps, Exposes q name := by
  obtain ⟨m, hm, hcaptures, hnegated, rfl⟩ := h
  unfold mentions at hm
  split at hm
  · rename_i hterm
    rw [mentions_negated.2 _ m hm] at hnegated
    exact absurd hnegated (by simp)
  · rename_i hcapture
    obtain ⟨rfl, rfl, rfl, rfl⟩ := Parse.node.inj hcapture
    rw [List.mem_singleton.mp hm]
    exact .inl ⟨rfl, rfl⟩
  · rw [List.mem_singleton.mp hm] at hcaptures
    exact absurd hcaptures (by simp)
  · rw [List.mem_singleton.mp hm] at hcaptures
    exact absurd hcaptures (by simp)
  · rename_i heq
    obtain ⟨rfl, rfl, rfl, rfl⟩ := Parse.node.inj heq
    rw [mentionsAll_eq_flatMap] at hm
    obtain ⟨q, hq, hm⟩ := List.mem_flatMap.mp hm
    exact .inr ⟨q, hq, m, hm, hcaptures, hnegated, rfl⟩

theorem exposes_part {r : PatternRule} {i : Nat} {cs : List Char} {ps : List Part} {name : String}
    (hr : r ≠ .capture) (h : Exposes (.node r i cs ps) name) : ∃ q ∈ ps, Exposes q name :=
  (exposes_cases h).resolve_left fun hcapture => hr hcapture.1

variable {s : Source} {name : String}

theorem not_exposes_of_fits {p : Part} (h : p.Fits patternGrammar)
    (hbears : p.rule.bearsCaptures = false) : ¬ Exposes p name := by
  induction h with
  | @node r i cs ps hyields _ ih =>
    intro hexposes
    rcases exposes_cases hexposes with ⟨rfl, _⟩ | ⟨q, hq, hexposes⟩
    · exact absurd (show PatternRule.bearsCaptures .capture = false from hbears) (by decide)
    · have hcalled := hyields.mem q.rule (List.mem_map_of_mem hq)
      exact ih q hq (PatternRule.not_bearsCaptures_of_calls hbears q.rule hcalled) hexposes

/-- The parts of a part that fits have the rules that it calls. -/
theorem fits_parts {r : PatternRule} {i : Nat} {cs : List Char} {ps : List Part}
    (h : (Parse.node r i cs ps).Fits patternGrammar) :
    (r.body).Yields (ps.map Parse.rule) ∧ ∀ q ∈ ps, q.Fits patternGrammar := by
  cases h with
  | node hyields hfits => exact ⟨hyields, hfits⟩

/-! ## Reading descriptions -/

theorem describePart_capture {before after : Description × Option VarId} {q : Part}
    (h : describePart s before q = .ok after) :
    (q.rule = .capture ∧ before.2 = none ∧ after.2 = some (s.variable (nameOf q))) ∨
      (q.rule ≠ .capture ∧ after.2 = before.2) := by
  unfold describePart at h
  dsimp only at h
  split at h
  · rename_i hrule
    exact .inr ⟨by rw [hrule]; decide, by rw [← Except.ok.inj h]⟩
  · rename_i hrule
    refine .inr ⟨by rw [hrule]; decide, ?_⟩
    obtain ⟨test, _, h⟩ := bind_eq_ok.mp h
    rw [← Except.ok.inj h]
  · rename_i hrule
    refine .inr ⟨by rw [hrule]; decide, ?_⟩
    split at h
    · rw [← Except.ok.inj h]
    · exact absurd h (by simp [Source.incomplete])
  · rename_i hrule
    split at h
    · exact absurd h (by simp [Source.error])
    · rename_i hnone
      exact .inl ⟨hrule, Option.not_isSome_iff_eq_none.mp hnone, by rw [← Except.ok.inj h]⟩
  · rename_i hother
    exact .inr ⟨hother, by rw [← Except.ok.inj h]⟩

/-- A capture among the parts of a description is the only one, and the one that is read. -/
theorem foldlM_describePart {ps : List Part} {before after : Description × Option VarId}
    (h : ps.foldlM (describePart s) before = .ok after) :
    (∀ v, before.2 = some v → after.2 = some v) ∧
      ∀ q ∈ ps, q.rule = .capture → after.2 = some (s.variable (nameOf q)) := by
  induction ps generalizing before with
  | nil =>
    rw [← Except.ok.inj h]
    exact ⟨fun _ hv => hv, fun _ hq => absurd hq (by simp)⟩
  | cons p ps ih =>
    rw [List.foldlM_cons] at h
    obtain ⟨next, hp, hps⟩ := bind_eq_ok.mp h
    obtain ⟨hkept, hlater⟩ := ih hps
    rcases describePart_capture hp with ⟨hrule, hnone, hnext⟩ | ⟨hrule, hnext⟩
    · refine ⟨fun v hv => absurd (hnone.symm.trans hv) (by simp), fun q hq hcapture => ?_⟩
      rcases List.mem_cons.mp hq with rfl | hq
      · exact hkept _ hnext
      · exact hlater q hq hcapture
    · refine ⟨fun v hv => hkept v (hnext.trans hv), fun q hq hcapture => ?_⟩
      rcases List.mem_cons.mp hq with rfl | hq
      · exact absurd hcapture hrule
      · exact hlater q hq hcapture

/-- **The name that a description exposes is that of the variable that is read.** -/
theorem describe_capture {i : Nat} {cs : List Char} {ps : List Part} {d : Description}
    {v : Option VarId} (hfits : (Parse.node .description i cs ps).Fits patternGrammar)
    (h : describe s (.node .description i cs ps) = .ok (d, v))
    (hexposes : Exposes (.node .description i cs ps) name) : v = some (s.variable name) := by
  obtain ⟨hyields, hparts⟩ := fits_parts hfits
  obtain ⟨⟨r, j, text, qs⟩, hq, hexposes⟩ := exposes_part (by decide) hexposes
  have hfits := hparts _ hq
  have hcalled : r ∈ (PatternRule.body .description).calls :=
    hyields.mem _ (List.mem_map_of_mem hq)
  by_cases hrule : r = .capture
  · subst hrule
    rcases exposes_cases hexposes with ⟨_, rfl⟩ | ⟨q, hq', hexposes⟩
    · exact (foldlM_describePart h).2 _ hq rfl
    · obtain ⟨hyields, hparts⟩ := fits_parts hfits
      have hname := hyields.mem _ (List.mem_map_of_mem hq')
      have hbears : ∀ r ∈ (PatternRule.body .capture).calls, r.bearsCaptures = false := by decide
      exact absurd hexposes (not_exposes_of_fits (hparts q hq') (hbears _ hname))
  · have hbears : ∀ r ∈ (PatternRule.body .description).calls,
        r ≠ .capture → r.bearsCaptures = false := by decide
    exact absurd hexposes (not_exposes_of_fits hfits (hbears r hcalled hrule))

/-! ## Reading relations -/

/-- In the middle of a chain nothing is captured. -/
theorem not_exposes_of_chain {i : Nat} {cs : List Char} {direction between : Part}
    {d : Description}
    (hfits : (Parse.node .chainOp i cs [direction, between]).Fits patternGrammar)
    (h : describe s between = .ok (d, none)) :
    ¬ Exposes (.node .chainOp i cs [direction, between]) name := by
  obtain ⟨hyields, hparts⟩ := fits_parts hfits
  have hcalled : [direction.rule, between.rule] = [.chainDirection, .description] :=
    (hyields.ordered (by decide)).eq_of_length rfl
  obtain ⟨hdirection, hrest⟩ := List.cons.inj hcalled
  obtain ⟨hbetween, _⟩ := List.cons.inj hrest
  intro hexposes
  obtain ⟨q, hq, hexposes⟩ := exposes_part (by decide) hexposes
  have hfits := hparts q hq
  rw [List.mem_cons, List.mem_singleton] at hq
  rcases hq with hq | hq
  · exact not_exposes_of_fits hfits (by rw [hq, hdirection]; rfl) hexposes
  · obtain ⟨rule, j, text, qs⟩ := between
    obtain rfl : rule = .description := hbetween
    subst hq
    exact absurd (describe_capture hfits h hexposes) (by simp)

/-- What stands for a relation exposes no name. -/
theorem not_exposes_of_relationOf {p : Part} {r : Relation} (hfits : p.Fits patternGrammar)
    (h : relationOf s p = .ok r) : ¬ Exposes p name := by
  obtain ⟨rule, i, cs, ps⟩ := p
  obtain ⟨hyields, hparts⟩ := fits_parts hfits
  -- a part that is not a name is not the one of a capture
  have honly : ∀ {q : Part}, ps = [q] → q.rule ≠ .name → ¬ Exposes q name →
      ¬ Exposes (.node rule i cs ps) name := by
    rintro q rfl hname hnot hexposes
    rcases exposes_cases hexposes with ⟨rfl, _⟩ | ⟨q', hq', hexposes⟩
    · exact hname (List.mem_singleton.mp (hyields.mem q.rule (List.mem_singleton_self _)))
    · exact hnot (List.mem_singleton.mp hq' ▸ hexposes)
  unfold relationOf at h
  dsimp only [Parse.parts] at h
  split at h
  · rename_i j text direction between
    obtain ⟨⟨d, capture⟩, hdescribe, h⟩ := bind_eq_ok.mp h
    refine honly rfl nofun ?_
    cases capture with
    | some v => exact absurd h (by simp [Source.error])
    | none => exact not_exposes_of_chain (hparts _ (List.mem_singleton_self _)) hdescribe
  · exact honly rfl nofun
      (not_exposes_of_fits (hparts _ (List.mem_singleton_self _)) rfl)
  · exact honly rfl nofun
      (not_exposes_of_fits (hparts _ (List.mem_singleton_self _)) rfl)
  · exact absurd h (by simp [Source.incomplete])

/-! ## Reading nodes and conditions -/

/-- What is read from a part has the variable of every name that the part exposes. -/
structure Binds (s : Source) (p : Part) : Prop where
  nodePattern : ∀ np, PatternReader.nodePattern s p = .ok np →
    ∀ name, Exposes p name → s.variable name ∈ np.exposed
  condition : ∀ c, PatternReader.condition s p = .ok c →
    ∀ name, Exposes p name → s.variable name ∈ c.exposed

theorem conditions_eq_mapM (s : Source) (ps : List Part) :
    conditions s ps = ps.mapM (condition s) := by
  induction ps with
  | nil => rw [conditions, List.mapM_nil]; rfl
  | cons p ps ih => rw [conditions, List.mapM_cons, ih]

theorem exposed_anyOf (cs : List Condition) :
    (anyOf cs).exposed = cs.flatMap Condition.exposed := by
  unfold anyOf
  split
  · rw [List.flatMap_singleton]
  · rw [Condition.exposed, Condition.exposedAll_eq_flatMap]

theorem exposed_allOf (cs : List Condition) :
    (allOf cs).exposed = cs.flatMap Condition.exposed := by
  unfold allOf
  split
  · rw [List.flatMap_singleton]
  · rw [Condition.exposed, Condition.exposedAll_eq_flatMap]

/-- Conditions that are read one by one have the variables of the names that their parts expose. -/
theorem exposed_of_conditions {ps : List Part} {cs : List Condition}
    (h : conditions s ps = .ok cs) (hparts : ∀ q ∈ ps, Binds s q)
    (hexposes : ∃ q ∈ ps, Exposes q name) : s.variable name ∈ cs.flatMap Condition.exposed := by
  obtain ⟨q, hq, hexposes⟩ := hexposes
  rw [conditions_eq_mapM] at h
  obtain ⟨c, hc, hread⟩ := (mem_of_mapM_eq_ok h).1 q hq
  exact List.mem_flatMap.mpr ⟨c, hc, (hparts q hq).condition c hread name hexposes⟩

theorem exposed_of_nodePattern {p : Part} {np : NodePattern} (hfits : p.Fits patternGrammar)
    (hparts : ∀ q ∈ p.parts, Binds s q) (h : nodePattern s p = .ok np) (hexposes : Exposes p name) :
    s.variable name ∈ np.exposed := by
  unfold nodePattern at h
  split at h
  · obtain ⟨q, hq, hpart⟩ := exposes_part (by decide) hexposes
    obtain rfl := List.mem_singleton.mp hq
    exact (hparts q hq).nodePattern np h name hpart
  · obtain ⟨p, hp, h⟩ := bind_eq_ok.mp h
    obtain ⟨c, hc, h⟩ := bind_eq_ok.mp h
    obtain rfl := Except.ok.inj h
    obtain ⟨q, hq, hpart⟩ := exposes_part (by decide) hexposes
    rw [NodePattern.mem_exposed_and]
    have hbinds := hparts q hq
    rw [List.mem_cons, List.mem_singleton] at hq
    rcases hq with rfl | rfl
    · exact .inl (hbinds.nodePattern p hp name hpart)
    · exact .inr (hbinds.condition c hc name hpart)
  · obtain ⟨⟨d, v⟩, hdescribe, h⟩ := bind_eq_ok.mp h
    obtain rfl := Except.ok.inj h
    rw [describe_capture hfits hdescribe hexposes, NodePattern.exposed]
    exact List.mem_singleton_self _
  · exact absurd h (by simp [Source.incomplete])

theorem exposed_of_condition {p : Part} {c : Condition} (hfits : p.Fits patternGrammar)
    (hparts : ∀ q ∈ p.parts, Binds s q) (h : condition s p = .ok c) (hexposes : Exposes p name) :
    s.variable name ∈ c.exposed := by
  unfold condition at h
  split at h
  · obtain ⟨conds, hconds, rfl⟩ := map_eq_ok.mp h
    rw [exposed_anyOf]
    exact exposed_of_conditions hconds hparts (exposes_part (by decide) hexposes)
  · obtain ⟨conds, hconds, rfl⟩ := map_eq_ok.mp h
    rw [exposed_allOf]
    exact exposed_of_conditions hconds hparts (exposes_part (by decide) hexposes)
  · -- what is below a negation is not exposed
    obtain ⟨m, hm, _, hnegated, _⟩ := hexposes
    rw [mentions] at hm
    rw [mentions_negated.2 _ m hm] at hnegated
    exact absurd hnegated (by simp)
  · -- the mark of an optional condition exposes nothing
    obtain ⟨c, hc, rfl⟩ := map_eq_ok.mp h
    obtain ⟨mark, hmark, hpart⟩ := exposes_part (by decide) hexposes
    have hfit := (fits_parts hfits).2 mark hmark
    have hbinds := hparts mark hmark
    rw [List.mem_cons, List.mem_singleton] at hmark
    rcases hmark with rfl | rfl
    · exact absurd hpart (not_exposes_of_fits hfit rfl)
    · exact hbinds.condition c hc name hpart
  · obtain ⟨q, hq, hpart⟩ := exposes_part (by decide) hexposes
    obtain rfl := List.mem_singleton.mp hq
    exact (hparts q hq).condition c h name hpart
  · obtain ⟨r, hr, h⟩ := bind_eq_ok.mp h
    obtain ⟨np, hnp, h⟩ := bind_eq_ok.mp h
    obtain rfl := Except.ok.inj h
    rw [Condition.exposed]
    obtain ⟨q, hq, hpart⟩ := exposes_part (by decide) hexposes
    have hfit := (fits_parts hfits).2 q hq
    have hbinds := hparts q hq
    rw [List.mem_cons, List.mem_singleton] at hq
    rcases hq with rfl | rfl
    · exact absurd hpart (not_exposes_of_relationOf hfit hr)
    · exact hbinds.nodePattern np hnp name hpart
  · exact absurd h (by simp [Source.incomplete])

/-- **What is read from a part that fits has the variables of the names that it exposes.** -/
theorem binds_of_fits {p : Part} (h : p.Fits patternGrammar) : Binds s p := by
  induction h with
  | node hyields hfits ih =>
    exact ⟨fun _ h _ hexposes => exposed_of_nodePattern (.node hyields hfits) ih h hexposes,
      fun _ h _ hexposes => exposed_of_condition (.node hyields hfits) ih h hexposes⟩

/-- Beside the node, a pattern consists of nothing but its end. -/
theorem exposed_of_pattern {p node : Part} {rest : List Part} {np : NodePattern}
    (hrule : p.rule = .pattern) (hfits : p.Fits patternGrammar) (hparts : p.parts = node :: rest)
    (h : nodePattern s node = .ok np) (hexposes : Exposes p name) :
    s.variable name ∈ np.exposed := by
  obtain ⟨rule, i, cs, ps⟩ := p
  obtain rfl : rule = .pattern := hrule
  obtain rfl : ps = node :: rest := hparts
  obtain ⟨hyields, hinside⟩ := fits_parts hfits
  obtain ⟨q, hq, hpart⟩ := exposes_part (by decide) hexposes
  have hfit := hinside q hq
  rcases List.mem_cons.mp hq with rfl | hrest
  · exact (binds_of_fits hfit).nodePattern np h name hpart
  · have hend : (rest.map Parse.rule).Sublist [.endOfText] := (hyields.ordered (by decide)).tail
    have hmem := hend.subset (List.mem_map_of_mem hrest)
    exact absurd hpart (not_exposes_of_fits hfit (by rw [List.mem_singleton.mp hmem]; rfl))

theorem isVisible_iff {p : Part} : isVisible (mentions false p) name = true ↔ Exposes p name := by
  simp only [isVisible, List.any_eq_true, Bool.and_eq_true, Bool.not_eq_true', beq_iff_eq, Exposes,
    and_assoc]

end PatternReader

namespace Pattern

open PatternReader

theorem idxOf?_of_mem {names : List String} {name : String} (h : name ∈ names) :
    names.idxOf? name = some (names.idxOf name) := by
  rw [List.idxOf_eq_getD_idxOf?]
  cases hi : names.idxOf? name with
  | none => exact absurd h (List.idxOf?_eq_none_iff.mp hi)
  | some i => rfl

/-- The names that a match can bind are the visible ones. -/
theorem mem_captureNames_iff {p : Pattern} {visible : String → Bool} {name : String}
    (h : p.visible = p.names.map visible) :
    name ∈ p.captureNames ↔ name ∈ p.names ∧ visible name = true := by
  rw [captureNames, h]
  generalize p.names = names
  induction names with
  | nil => simp
  | cons n names ih =>
    rw [List.map_cons, List.zip_cons_cons, List.filterMap_cons]
    dsimp only
    cases hn : visible n with
    | true =>
      rw [if_pos rfl, List.mem_cons, ih, List.mem_cons]
      constructor
      · rintro (rfl | ⟨hmem, hvisible⟩)
        · exact ⟨.inl rfl, hn⟩
        · exact ⟨.inr hmem, hvisible⟩
      · rintro ⟨rfl | hmem, hvisible⟩
        · exact .inl rfl
        · exact .inr ⟨hmem, hvisible⟩
    | false =>
      rw [if_neg Bool.false_ne_true, ih, List.mem_cons]
      constructor
      · exact fun ⟨hmem, hvisible⟩ => ⟨.inr hmem, hvisible⟩
      · rintro ⟨rfl | hmem, hvisible⟩
        · exact absurd (hn.symm.trans hvisible) Bool.false_ne_true
        · exact ⟨hmem, hvisible⟩

/-- **Every name that a match can bind is one of a variable outside negations.** -/
theorem parse_exposed {source : String} {marks : Marks} {p : Pattern}
    (h : Pattern.parse source marks = .ok p) {name : String} (hname : name ∈ p.captureNames) :
    ∃ v ∈ p.root.exposed, p.names.idxOf? name = some v := by
  unfold Pattern.parse at h
  dsimp only at h
  split at h
  · exact absurd h (by simp)
  · rename_i parsed hparsed
    obtain ⟨hrule, hfits⟩ := Grammar.parse_fits hparsed
    split at h
    · rename_i node rest hparts
      obtain ⟨root, hroot, h⟩ := bind_eq_ok.mp h
      split at h
      · exact absurd h (by simp [throw, throwThe, MonadExceptOf.throw])
      · obtain rfl := Except.ok.inj h
        obtain ⟨hmem, hvisible⟩ := (mem_captureNames_iff rfl).mp hname
        have hexposed := exposed_of_pattern hrule hfits hparts hroot (isVisible_iff.mp hvisible)
        exact ⟨_, hexposed, idxOf?_of_mem hmem⟩
    · exact absurd h (by simp [Source.incomplete])

end Pattern

/-! ## Single patterns -/

namespace Condition

/-- The condition of having a child with a given label, for which a variable stands. -/
def namedChild (label : String) (v : VarId) : Condition :=
  .related .parentOf (.mk ⟨false, .oneOf [.literal label], []⟩ (some v) none)

/-- Whether a condition is this one. -/
def isNamedChild (label : String) (v : VarId) : Condition → Bool
  | .related .parentOf (.mk ⟨false, .oneOf [.literal l], []⟩ (some w) none) => l = label && w = v
  | _ => false

theorem eq_of_isNamedChild {label : String} {v : VarId} {c : Condition}
    (h : c.isNamedChild label v = true) : c = namedChild label v := by
  unfold isNamedChild at h
  split at h
  · simp only [Bool.and_eq_true, decide_eq_true_eq] at h
    obtain ⟨rfl, rfl⟩ := h
    rfl
  · exact absurd h Bool.false_ne_true

end Condition

namespace Pattern

/-- Whether a pattern asks for a node with one label and a named child with another. -/
def asksForChild (parent child name : String) : Pattern → Bool
  | ⟨_, .mk ⟨false, .oneOf [.literal label], []⟩ none (some c), names, _, _⟩ =>
    label = parent && c.isNamedChild child 0 && names = [name]
  | _ => false

theorem eq_of_asksForChild {parent child name : String} {p : Pattern}
    (h : p.asksForChild parent child name = true) :
    p.root = .mk ⟨false, .oneOf [.literal parent], []⟩ none (some (.namedChild child 0)) ∧
      p.names = [name] := by
  unfold asksForChild at h
  split at h
  · simp only [Bool.and_eq_true, decide_eq_true_eq] at h
    obtain ⟨⟨rfl, hc⟩, rfl⟩ := h
    exact ⟨congrArg _ (congrArg some (Condition.eq_of_isNamedChild hc)), rfl⟩
  · exact absurd h Bool.false_ne_true

/-- What a test says of the outcome of a parse, it says of the pattern that was read. -/
theorem exists_parse {source : String} {marks : Marks} {test : Pattern → Bool}
    (h : (Pattern.parse source marks).toOption.any test = true) :
    ∃ p, Pattern.parse source marks = .ok p ∧ test p = true := by
  cases hp : Pattern.parse source marks with
  | error e =>
    rw [hp] at h
    exact absurd h Bool.false_ne_true
  | ok p =>
    rw [hp] at h
    exact ⟨p, rfl, h⟩

end Pattern

end Constituency
