import Constituency.Proofs.Pattern.Captures

/-!
# Where the variables of a pattern stand

A variable occurs in a pattern where a node is captured, and where a description refers to it; the
description may be that of a node or that of what is in the middle of a chain. An occurrence is
negated if it stands below a negated condition, however often it is negated
(`NodePattern.occurrences`).

What is read from a parse has no occurrences but those of names that the parse mentions
(`PatternReader.mentioned_of_fits`). So whatever is said about all mentioned names holds of all
occurrences. In this way it is shown that the variables of a pattern have numbers below the number
of its names, and that those outside negations belong to names that a match can bind.
-/

namespace Constituency

/-- An occurrence of a variable in a pattern. -/
structure Occurrence where
  var : VarId
  /-- Whether a node is bound to the variable here, and not compared with it. -/
  captures : Bool
  negated : Bool
deriving DecidableEq

/-- The variables that a label test refers to. -/
def LabelTest.references : LabelTest → List VarId
  | .sameNode v => [v]
  | .sameLabel v => [v]
  | _ => []

/-- The variables that the middle of a chain refers to. -/
def Relation.references : Relation → List VarId
  | .dominatesVia d => d.test.references
  | .dominatedByVia d => d.test.references
  | _ => []

namespace Occurrence

/-- The occurrences of variables that are referred to. -/
def references (negated : Bool) (vs : List VarId) : List Occurrence :=
  vs.map fun v => ⟨v, false, negated⟩

/-- The occurrence of a variable that captures a node. -/
def capture (negated : Bool) (v : Option VarId) : List Occurrence :=
  v.toList.map fun v => ⟨v, true, negated⟩

end Occurrence

mutual

/-- The occurrences of variables in a pattern, in the order of its parts. -/
def NodePattern.occurrences (negated : Bool) : NodePattern → List Occurrence
  | .mk d v none =>
    Occurrence.references negated d.test.references ++ Occurrence.capture negated v
  | .mk d v (some c) =>
    Occurrence.references negated d.test.references ++ Occurrence.capture negated v
      ++ c.occurrences negated

/-- The occurrences of variables in a condition. -/
def Condition.occurrences (negated : Bool) : Condition → List Occurrence
  | .all cs => Condition.occurrencesAll negated cs
  | .any cs => Condition.occurrencesAll negated cs
  | .not c => c.occurrences true
  | .optional c => c.occurrences negated
  | .related r p => Occurrence.references negated r.references ++ p.occurrences negated

/-- The occurrences of variables in several conditions. -/
def Condition.occurrencesAll (negated : Bool) : List Condition → List Occurrence
  | [] => []
  | c :: cs => c.occurrences negated ++ Condition.occurrencesAll negated cs

end

/-- The variables of a pattern, those of chains and those below negations included. -/
def NodePattern.variables (p : NodePattern) : List VarId := (p.occurrences false).map (·.var)

namespace Condition

theorem occurrencesAll_eq_flatMap (negated : Bool) (cs : List Condition) :
    occurrencesAll negated cs = cs.flatMap (occurrences negated) := by
  induction cs with
  | nil => rfl
  | cons c cs ih => rw [occurrencesAll, ih, List.flatMap_cons]

theorem occurrencesAll_conjuncts (negated : Bool) (c : Condition) :
    occurrencesAll negated c.conjuncts = c.occurrences negated := by
  cases c <;> simp [conjuncts, occurrencesAll, occurrences]

theorem occurrences_merge (negated : Bool) (c d : Condition) :
    (c.merge d).occurrences negated = c.occurrences negated ++ d.occurrences negated := by
  rw [merge_eq, occurrences, occurrencesAll_eq_flatMap, List.flatMap_append,
    ← occurrencesAll_eq_flatMap, ← occurrencesAll_eq_flatMap, occurrencesAll_conjuncts,
    occurrencesAll_conjuncts]

end Condition

theorem NodePattern.occurrences_and (negated : Bool) (p : NodePattern) (c : Condition) :
    (p.and c).occurrences negated = p.occurrences negated ++ c.occurrences negated := by
  obtain ⟨d, w, _ | k⟩ := p
  · rw [NodePattern.and, occurrences, occurrences]
  · rw [NodePattern.and, occurrences, occurrences, Condition.occurrences_merge,
      List.append_assoc, List.append_assoc, List.append_assoc]

/-! ## Below a negation -/

/-- The occurrence as it is below a negation. -/
def Occurrence.negate (o : Occurrence) : Occurrence := { o with negated := true }

theorem Occurrence.references_true (negated : Bool) (vs : List VarId) :
    references true vs = (references negated vs).map negate := by
  rw [references, references, List.map_map]
  rfl

theorem Occurrence.capture_true (negated : Bool) (v : Option VarId) :
    capture true v = (capture negated v).map negate := by
  rw [capture, capture, List.map_map]
  rfl

mutual

/-- Below a negation the same variables occur, all of them negated. -/
theorem NodePattern.occurrences_true (negated : Bool) : ∀ p : NodePattern,
    p.occurrences true = (p.occurrences negated).map Occurrence.negate
  | .mk d v none => by
    rw [NodePattern.occurrences, NodePattern.occurrences, List.map_append,
      ← Occurrence.references_true, ← Occurrence.capture_true]
  | .mk d v (some c) => by
    rw [NodePattern.occurrences, NodePattern.occurrences, List.map_append, List.map_append,
      ← Occurrence.references_true, ← Occurrence.capture_true, c.occurrences_true negated]

theorem Condition.occurrences_true (negated : Bool) : ∀ c : Condition,
    c.occurrences true = (c.occurrences negated).map Occurrence.negate
  | .all cs => by
    rw [Condition.occurrences, Condition.occurrences, Condition.occurrencesAll_true negated cs]
  | .any cs => by
    rw [Condition.occurrences, Condition.occurrences, Condition.occurrencesAll_true negated cs]
  | .not c => by
    rw [Condition.occurrences, Condition.occurrences, ← c.occurrences_true true]
  | .optional c => by
    rw [Condition.occurrences, Condition.occurrences, c.occurrences_true negated]
  | .related r p => by
    rw [Condition.occurrences, Condition.occurrences, List.map_append,
      ← Occurrence.references_true, p.occurrences_true negated]

theorem Condition.occurrencesAll_true (negated : Bool) : ∀ cs : List Condition,
    Condition.occurrencesAll true cs =
      (Condition.occurrencesAll negated cs).map Occurrence.negate
  | [] => rfl
  | c :: cs => by
    rw [Condition.occurrencesAll, Condition.occurrencesAll, List.map_append,
      c.occurrences_true negated, Condition.occurrencesAll_true negated cs]

end

theorem Condition.negated_of_mem {c : Condition} {o : Occurrence} (h : o ∈ c.occurrences true) :
    o.negated = true := by
  rw [c.occurrences_true false] at h
  obtain ⟨o', _, rfl⟩ := List.mem_map.mp h
  rfl

theorem Occurrence.mem_capture_iff {v : VarId} {o : Option VarId} :
    (⟨v, true, false⟩ : Occurrence) ∈ capture false o ↔ v ∈ o.toList := by
  simp [capture]

theorem Occurrence.not_mem_references {v : VarId} {negated : Bool} {vs : List VarId} :
    (⟨v, true, false⟩ : Occurrence) ∉ references negated vs := by
  simp [references]

mutual

/-- The variables outside negations are those that capture a node there. -/
theorem NodePattern.mem_exposed_iff {v : VarId} : ∀ p : NodePattern,
    v ∈ p.exposed ↔ ⟨v, true, false⟩ ∈ p.occurrences false
  | .mk d w none => by
    rw [NodePattern.exposed, NodePattern.occurrences, List.mem_append]
    exact Occurrence.mem_capture_iff.symm.trans
      ⟨.inr, fun h => h.resolve_left Occurrence.not_mem_references⟩
  | .mk d w (some c) => by
    rw [NodePattern.exposed, NodePattern.occurrences, List.mem_append, List.mem_append,
      List.mem_append, c.mem_exposed_iff, ← Occurrence.mem_capture_iff]
    exact or_congr_left ⟨.inr, fun h => h.resolve_left Occurrence.not_mem_references⟩

theorem Condition.mem_exposed_iff {v : VarId} : ∀ c : Condition,
    v ∈ c.exposed ↔ ⟨v, true, false⟩ ∈ c.occurrences false
  | .all cs => by
    rw [Condition.exposed, Condition.occurrences, Condition.mem_exposedAll_iff cs]
  | .any cs => by
    rw [Condition.exposed, Condition.occurrences, Condition.mem_exposedAll_iff cs]
  | .not c => by
    rw [Condition.exposed, Condition.occurrences]
    exact iff_of_false List.not_mem_nil fun h => absurd (Condition.negated_of_mem h) (by simp)
  | .optional c => by
    rw [Condition.exposed, Condition.occurrences, c.mem_exposed_iff]
  | .related r p => by
    rw [Condition.exposed, Condition.occurrences, List.mem_append, p.mem_exposed_iff]
    exact ⟨.inr, fun h => h.resolve_left Occurrence.not_mem_references⟩

theorem Condition.mem_exposedAll_iff {v : VarId} : ∀ cs : List Condition,
    v ∈ Condition.exposedAll cs ↔ ⟨v, true, false⟩ ∈ Condition.occurrencesAll false cs
  | [] => iff_of_false List.not_mem_nil List.not_mem_nil
  | c :: cs => by
    rw [Condition.exposedAll, Condition.occurrencesAll, List.mem_append, List.mem_append,
      c.mem_exposed_iff, Condition.mem_exposedAll_iff cs]

end

/-! ## What is read and what is mentioned -/

namespace PatternReader

open Grammar

variable {s : Source} {negated : Bool}

/-- The occurrence of a variable that a mention of its name becomes. -/
def Mention.occurrence (s : Source) (m : Mention) : Occurrence :=
  ⟨s.variable m.name, m.captures, m.negated⟩

/-- All of some occurrences are of names that a part mentions. -/
def Mentioned (s : Source) (negated : Bool) (p : Part) (os : List Occurrence) : Prop :=
  ∀ o ∈ os, ∃ m ∈ mentions negated p, m.occurrence s = o

theorem Mentioned.nil (p : Part) : Mentioned s negated p [] :=
  fun _ ho => absurd ho List.not_mem_nil

theorem Mentioned.append {p : Part} {os os' : List Occurrence} (h : Mentioned s negated p os)
    (h' : Mentioned s negated p os') : Mentioned s negated p (os ++ os') :=
  fun o ho => (List.mem_append.mp ho).elim (h o) (h' o)

/-- Whether a rule mentions nothing but what its parts mention. -/
def isTransparent : PatternRule → Bool
  | .term | .capture | .sameNode | .sameLabel => false
  | _ => true

theorem mentions_of_isTransparent {r : PatternRule} (h : isTransparent r = true) (i : Nat)
    (cs : List Char) (ps : List Part) :
    mentions negated (.node r i cs ps) = ps.flatMap (mentions negated) := by
  rw [← mentionsAll_eq_flatMap]
  cases r <;> first | exact absurd h (by decide) | (rw [mentions] <;> simp)

/-- What a part mentions is mentioned by what it is part of. -/
theorem Mentioned.of_part {r : PatternRule} (hr : isTransparent r = true) {i : Nat}
    {cs : List Char} {ps : List Part} {q : Part} {os : List Occurrence} (hq : q ∈ ps)
    (h : Mentioned s negated q os) : Mentioned s negated (.node r i cs ps) os := by
  intro o ho
  obtain ⟨m, hm, hocc⟩ := h o ho
  rw [mentions_of_isTransparent hr]
  exact ⟨m, List.mem_flatMap.mpr ⟨q, hq, hm⟩, hocc⟩

/-- The label test of a description refers to names that the part for the test mentions. -/
theorem mentioned_of_labelTest {q : Part} {test : LabelTest} (hrule : q.rule = .labelTest)
    (h : labelTest s q = .ok test) :
    Mentioned s negated q (Occurrence.references negated test.references) := by
  obtain ⟨r, i, cs, ps⟩ := q
  obtain rfl : r = .labelTest := hrule
  unfold labelTest at h
  dsimp only [Parse.parts] at h
  split at h
  · obtain rfl := Except.ok.inj h
    exact .nil _
  · -- the reference is the whole test
    obtain rfl := Except.ok.inj h
    refine .of_part rfl (List.mem_singleton_self _) fun o ho => ?_
    rw [mentions]
    exact ⟨_, List.mem_singleton_self _, (List.mem_singleton.mp ho).symm⟩
  · obtain rfl := Except.ok.inj h
    refine .of_part rfl (List.mem_singleton_self _) fun o ho => ?_
    rw [mentions]
    exact ⟨_, List.mem_singleton_self _, (List.mem_singleton.mp ho).symm⟩
  · obtain ⟨atoms, _, rfl⟩ := map_eq_ok.mp h
    exact .nil _
  · exact absurd h (by simp [Source.incomplete])

/-- The occurrences of a description with a capture. -/
def described (negated : Bool) (x : Description × Option VarId) : List Occurrence :=
  Occurrence.references negated x.1.test.references ++ Occurrence.capture negated x.2

/-- One more part of a description brings in nothing but what it mentions. -/
theorem mentioned_of_describePart {before after : Description × Option VarId} {q : Part}
    (h : describePart s before q = .ok after) :
    ∀ o ∈ described negated after, o ∈ described negated before ∨
      ∃ m ∈ mentions negated q, m.occurrence s = o := by
  obtain ⟨r, i, cs, ps⟩ := q
  have hsame : ∀ d : Description, after = (d, before.2) → d.test = before.1.test →
      ∀ o ∈ described negated after, o ∈ described negated before ∨
        ∃ m ∈ mentions negated (.node r i cs ps), m.occurrence s = o := by
    intro d hafter htest o ho
    rw [hafter, described, htest] at ho
    exact .inl ho
  unfold describePart at h
  dsimp only [Parse.rule] at h
  split at h
  · exact hsame _ (Except.ok.inj h).symm rfl
  · -- the label test takes the place of the one before
    obtain ⟨test, htest, h⟩ := bind_eq_ok.mp h
    obtain rfl := Except.ok.inj h
    intro o ho
    rcases List.mem_append.mp ho with ho | ho
    · exact .inr (mentioned_of_labelTest rfl htest o ho)
    · exact .inl (List.mem_append_right _ ho)
  · split at h
    · exact hsame _ (Except.ok.inj h).symm rfl
    · exact absurd h (by simp [Source.incomplete])
  · split at h
    · exact absurd h (by simp [Source.error])
    · obtain rfl := Except.ok.inj h
      intro o ho
      rcases List.mem_append.mp ho with ho | ho
      · exact .inl (List.mem_append_left _ ho)
      · refine .inr ?_
        rw [mentions]
        exact ⟨_, List.mem_singleton_self _, (List.mem_singleton.mp ho).symm⟩
  · exact hsame _ (Except.ok.inj h).symm rfl

theorem mentioned_of_foldlM {ps : List Part} {before after : Description × Option VarId}
    (h : ps.foldlM (describePart s) before = .ok after) :
    ∀ o ∈ described negated after, o ∈ described negated before ∨
      ∃ q ∈ ps, ∃ m ∈ mentions negated q, m.occurrence s = o := by
  induction ps generalizing before with
  | nil =>
    obtain rfl := Except.ok.inj h
    exact fun o ho => .inl ho
  | cons p ps ih =>
    rw [List.foldlM_cons] at h
    obtain ⟨next, hp, hps⟩ := bind_eq_ok.mp h
    intro o ho
    rcases ih hps o ho with ho | ⟨q, hq, hm⟩
    · rcases mentioned_of_describePart hp o ho with ho | hm
      · exact .inl ho
      · exact .inr ⟨p, List.mem_cons_self .., hm⟩
    · exact .inr ⟨q, List.mem_cons_of_mem p hq, hm⟩

/-- What is read of a description refers to and captures names that it mentions. -/
theorem mentioned_of_describe {p : Part} {x : Description × Option VarId}
    (hrule : p.rule = .description) (h : describe s p = .ok x) :
    Mentioned s negated p (described negated x) := by
  obtain ⟨r, i, cs, ps⟩ := p
  obtain rfl : r = .description := hrule
  intro o ho
  rcases mentioned_of_foldlM h o ho with ho | ⟨q, hq, hm⟩
  · exact absurd ho List.not_mem_nil
  · rw [mentions_of_isTransparent rfl]
    obtain ⟨m, hm, hocc⟩ := hm
    exact ⟨m, List.mem_flatMap.mpr ⟨q, hq, hm⟩, hocc⟩

/-- Chains stand in relations only. -/
theorem isTransparent_of_calls_chainOp {r : PatternRule}
    (h : PatternRule.chainOp ∈ (PatternRule.body r).calls) : isTransparent r = true := by
  cases r <;> first | rfl | exact absurd h (by decide)

/-- The middle of a chain refers to names that the part for the relation mentions. -/
theorem mentioned_of_relationOf {p : Part} {r : Relation} (hfits : p.Fits patternGrammar)
    (h : relationOf s p = .ok r) :
    Mentioned s negated p (Occurrence.references negated r.references) := by
  obtain ⟨rule, i, cs, ps⟩ := p
  obtain ⟨hcalls, hparts⟩ := fits_parts hfits
  unfold relationOf at h
  dsimp only [Parse.parts] at h
  split at h
  · rename_i _ j text direction between
    obtain ⟨⟨d, capture⟩, hdescribe, h⟩ := bind_eq_ok.mp h
    have hrule : isTransparent rule = true :=
      isTransparent_of_calls_chainOp (hcalls.mem _ (List.mem_singleton_self _))
    obtain ⟨hyields, _⟩ := fits_parts (hparts _ (List.mem_singleton_self _))
    have hcalled : [direction.rule, between.rule] = [.chainDirection, .description] :=
      (hyields.ordered (by decide)).eq_of_length rfl
    have hbetween : between.rule = .description :=
      (List.cons.inj (List.cons.inj hcalled).2).1
    have hmiddle : Mentioned s negated between (Occurrence.references negated d.test.references) :=
      fun o ho => mentioned_of_describe hbetween hdescribe o (List.mem_append_left _ ho)
    have hchain : Mentioned s negated (.node rule i cs [.node .chainOp j text [direction, between]])
        (Occurrence.references negated d.test.references) :=
      .of_part hrule (List.mem_singleton_self _)
        (.of_part rfl (List.mem_cons_of_mem _ (List.mem_singleton_self _)) hmiddle)
    dsimp only at h
    split at h
    · exact absurd h (by simp [Source.error])
    · split at h
      · exact Except.ok.inj h ▸ hchain
      · exact Except.ok.inj h ▸ hchain
  · obtain ⟨n, _, h⟩ := bind_eq_ok.mp h
    split at h
    · exact Except.ok.inj h ▸ .nil _
    · exact Except.ok.inj h ▸ .nil _
  · split at h
    · -- a relation without arguments refers to nothing
      rename_i r' hr'
      obtain rfl := Except.ok.inj h
      have hplain : r'.references = [] := by
        unfold Relation.ofToken? at hr'
        split at hr' <;> first
          | (obtain rfl := Option.some.inj hr'; rfl)
          | exact absurd hr' (by simp)
      rw [hplain]
      exact .nil _
    · exact absurd h (by simp [Source.error])
  · exact absurd h (by simp [Source.incomplete])

/-- What is read from a part has no occurrences but those of names that the part mentions. -/
structure ReadsMentioned (s : Source) (p : Part) : Prop where
  nodePattern : ∀ np, PatternReader.nodePattern s p = .ok np →
    ∀ negated, Mentioned s negated p (np.occurrences negated)
  condition : ∀ c, PatternReader.condition s p = .ok c →
    ∀ negated, Mentioned s negated p (c.occurrences negated)

theorem mentioned_of_conditions {r : PatternRule} (hr : isTransparent r = true) {i : Nat}
    {text : List Char} {ps : List Part} {cs : List Condition} (h : conditions s ps = .ok cs)
    (hparts : ∀ q ∈ ps, ReadsMentioned s q) :
    Mentioned s negated (.node r i text ps) (Condition.occurrencesAll negated cs) := by
  rw [conditions_eq_mapM] at h
  rw [Condition.occurrencesAll_eq_flatMap]
  intro o ho
  obtain ⟨c, hc, ho⟩ := List.mem_flatMap.mp ho
  obtain ⟨q, hq, hread⟩ := (mem_of_mapM_eq_ok h).2 c hc
  exact Mentioned.of_part hr hq ((hparts q hq).condition c hread negated) o ho

theorem occurrences_anyOf (cs : List Condition) :
    (anyOf cs).occurrences negated = Condition.occurrencesAll negated cs := by
  unfold anyOf
  split
  · rw [Condition.occurrencesAll, Condition.occurrencesAll, List.append_nil]
  · rw [Condition.occurrences]

theorem occurrences_allOf (cs : List Condition) :
    (allOf cs).occurrences negated = Condition.occurrencesAll negated cs := by
  unfold allOf
  split
  · rw [Condition.occurrencesAll, Condition.occurrencesAll, List.append_nil]
  · rw [Condition.occurrences]

theorem mentioned_of_nodePattern {p : Part} {np : NodePattern}
    (hparts : ∀ q ∈ p.parts, ReadsMentioned s q) (h : nodePattern s p = .ok np) :
    Mentioned s negated p (np.occurrences negated) := by
  unfold nodePattern at h
  split at h
  · have hhead := (hparts _ (List.mem_singleton_self _)).nodePattern np h negated
    exact .of_part rfl (List.mem_singleton_self _) hhead
  · rename_i i cs head relations
    obtain ⟨np, hnp, h⟩ := bind_eq_ok.mp h
    obtain ⟨c, hc, h⟩ := bind_eq_ok.mp h
    obtain rfl := Except.ok.inj h
    have hin : relations ∈ [head, relations] := List.mem_cons_of_mem _ (List.mem_singleton_self _)
    rw [NodePattern.occurrences_and]
    refine .append ?_ ?_
    · exact .of_part rfl (List.mem_cons_self ..)
        ((hparts _ (List.mem_cons_self ..)).nodePattern np hnp negated)
    · exact .of_part rfl hin ((hparts _ hin).condition c hc negated)
  · obtain ⟨⟨d, v⟩, hdescribe, h⟩ := bind_eq_ok.mp h
    obtain rfl := Except.ok.inj h
    rw [NodePattern.occurrences]
    exact mentioned_of_describe rfl hdescribe
  · exact absurd h (by simp [Source.incomplete])

/-- What stands below the mark of a negation is mentioned as negated. -/
theorem mentioned_of_negation {i j : Nat} {text mark : List Char} {ps : List Part} {p : Part}
    {os : List Occurrence} (h : Mentioned s true p os) :
    Mentioned s negated (.node .term i text [.node .negation j mark ps, p]) os := by
  intro o ho
  obtain ⟨m, hm, hocc⟩ := h o ho
  rw [mentions, mentionsAll_eq_flatMap]
  exact ⟨m, List.mem_flatMap.mpr ⟨p, List.mem_singleton_self _, hm⟩, hocc⟩

/-- A term without the mark of a negation mentions what its parts mention. -/
theorem mentioned_of_term {i : Nat} {text : List Char} {ps : List Part} {p : Part}
    {os : List Occurrence} (hps : ∀ q ∈ ps.head?, q.rule ≠ .negation) (hp : p ∈ ps)
    (h : Mentioned s negated p os) : Mentioned s negated (.node .term i text ps) os := by
  intro o ho
  obtain ⟨m, hm, hocc⟩ := h o ho
  have hall : mentions negated (.node .term i text ps) = ps.flatMap (mentions negated) := by
    rw [← mentionsAll_eq_flatMap, mentions]
    · rintro _ _ _ _ _ rfl
      exact hps _ rfl rfl
    all_goals simp
  rw [hall]
  exact ⟨m, List.mem_flatMap.mpr ⟨p, hp, hm⟩, hocc⟩

theorem mentioned_of_condition {p : Part} {c : Condition} (hfits : p.Fits patternGrammar)
    (hparts : ∀ q ∈ p.parts, ReadsMentioned s q) (h : condition s p = .ok c) :
    Mentioned s negated p (c.occurrences negated) := by
  unfold condition at h
  split at h
  · obtain ⟨cs, hcs, rfl⟩ := map_eq_ok.mp h
    rw [occurrences_anyOf]
    exact mentioned_of_conditions rfl hcs hparts
  · obtain ⟨cs, hcs, rfl⟩ := map_eq_ok.mp h
    rw [occurrences_allOf]
    exact mentioned_of_conditions rfl hcs hparts
  · rename_i i text j mark qs q
    obtain ⟨c, hc, rfl⟩ := map_eq_ok.mp h
    have hin : q ∈ [.node .negation j mark qs, q] :=
      List.mem_cons_of_mem _ (List.mem_singleton_self _)
    rw [Condition.occurrences]
    exact mentioned_of_negation ((hparts q hin).condition c hc true)
  · rename_i i text j mark qs q
    obtain ⟨c, hc, rfl⟩ := map_eq_ok.mp h
    have hin : q ∈ [.node .optional j mark qs, q] :=
      List.mem_cons_of_mem _ (List.mem_singleton_self _)
    rw [Condition.occurrences]
    refine mentioned_of_term (fun first hfirst => ?_) hin ((hparts q hin).condition c hc negated)
    rw [← Option.some.inj hfirst]
    exact nofun
  · -- the only part of a term is not the mark of a negation, which is no condition
    rename_i i text p
    have hread := (hparts _ (List.mem_singleton_self _)).condition c h negated
    refine mentioned_of_term (fun q hq => ?_) (List.mem_singleton_self _) hread
    rw [← Option.some.inj hq]
    intro hrule
    obtain ⟨r, j, mark, qs⟩ := p
    obtain rfl : r = .negation := hrule
    exact absurd h (by simp [condition, Source.incomplete])
  · rename_i i text op target
    obtain ⟨r, hr, h⟩ := bind_eq_ok.mp h
    obtain ⟨np, hnp, h⟩ := bind_eq_ok.mp h
    obtain rfl := Except.ok.inj h
    obtain ⟨_, hinside⟩ := fits_parts hfits
    have hin : target ∈ [op, target] := List.mem_cons_of_mem _ (List.mem_singleton_self _)
    rw [Condition.occurrences]
    refine .append ?_ ?_
    · exact .of_part rfl (List.mem_cons_self ..)
        (mentioned_of_relationOf (hinside op (List.mem_cons_self ..)) hr)
    · exact .of_part rfl hin ((hparts _ hin).nodePattern np hnp negated)
  · exact absurd h (by simp [Source.incomplete])

/-- **What is read from a part that fits has no occurrences but of names that it mentions.** -/
theorem mentioned_of_fits {p : Part} (h : p.Fits patternGrammar) : ReadsMentioned s p := by
  induction h with
  | node hyields hfits ih =>
    exact ⟨fun _ h _ => mentioned_of_nodePattern ih h,
      fun _ h _ => mentioned_of_condition (.node hyields hfits) ih h⟩

end PatternReader

end Constituency
