import Constituency.Proofs.Pattern.Conditions

/-!
# Written patterns are read back

A written pattern is read as one node up to the end of the text, and its names are mentioned in the
order in which its variables occur. So the names are numbered as the variables are that they stand
for (`numbering_eq`), and a reference sees a capture of its name where the variable has one. What
comes out is the pattern with its variables numbered in the order in which they first appear
(`Pattern.parse_written`).
-/

namespace Constituency

open Grammar PatternRule

/-! ## Variables -/

namespace Occurrence

variable {P : VarId → Prop} {b : Bool}

/-- What holds of the variables of a description with a capture. -/
theorem of_described {us : List VarId} {v : Option VarId}
    (h : ∀ o ∈ references b us ++ capture b v, P o.var) : ∀ u ∈ us ++ v.toList, P u := by
  intro u hu
  rcases List.mem_append.mp hu with hu | hu
  · exact h ⟨u, false, b⟩ (List.mem_append_left _ (List.mem_map_of_mem hu))
  · exact h ⟨u, true, b⟩ (List.mem_append_right _ (List.mem_map_of_mem hu))

theorem of_references {us : List VarId} (h : ∀ o ∈ references b us, P o.var) : ∀ u ∈ us, P u :=
  fun u hu => h ⟨u, false, b⟩ (List.mem_map_of_mem hu)

end Occurrence

section rename

variable {f g : VarId → VarId}

theorem Description.rename_congr {d : Description} (h : ∀ u ∈ d.test.references, f u = g u) :
    d.rename f = d.rename g := by
  have htest : d.test.rename f = d.test.rename g := by
    generalize d.test = test at h
    cases test with
    | any => rfl
    | oneOf atoms => rfl
    | sameNode v => exact congrArg LabelTest.sameNode (h v (List.mem_cons_self ..))
    | sameLabel v => exact congrArg LabelTest.sameLabel (h v (List.mem_cons_self ..))
  rw [Description.rename, Description.rename, htest]

theorem Relation.rename_congr {r : Relation} (h : ∀ u ∈ r.references, f u = g u) :
    r.rename f = r.rename g := by
  cases r with
  | dominatesVia d => exact congrArg Relation.dominatesVia (Description.rename_congr h)
  | dominatedByVia d => exact congrArg Relation.dominatedByVia (Description.rename_congr h)
  | _ => rfl

theorem rename_described {d : Description} {v : Option VarId}
    (h : ∀ u ∈ d.test.references ++ v.toList, f u = g u) :
    d.rename f = d.rename g ∧ v.map f = v.map g := by
  obtain ⟨htest, hv⟩ := List.forall_mem_append.mp h
  exact ⟨Description.rename_congr htest,
    Option.map_congr fun u hu => hv u (Option.mem_toList.mpr hu)⟩

mutual

/-- What becomes of a pattern depends on what becomes of its variables only. -/
theorem NodePattern.rename_congr {b : Bool} : ∀ p : NodePattern,
    (∀ o ∈ p.occurrences b, f o.var = g o.var) → p.rename f = p.rename g
  | .mk d v none, h => by
    obtain ⟨hd, hv⟩ := rename_described (Occurrence.of_described (P := fun u => f u = g u) h)
    rw [NodePattern.rename, NodePattern.rename, hd, hv]
  | .mk d v (some c), h => by
    obtain ⟨hdescribed, hc⟩ := List.forall_mem_append.mp h
    obtain ⟨hd, hv⟩ :=
      rename_described (Occurrence.of_described (P := fun u => f u = g u) hdescribed)
    rw [NodePattern.rename, NodePattern.rename, hd, hv, Condition.rename_congr (b := b) c hc]

theorem Condition.rename_congr {b : Bool} : ∀ c : Condition,
    (∀ o ∈ c.occurrences b, f o.var = g o.var) → c.rename f = c.rename g
  | .all cs, h => by
    rw [Condition.rename, Condition.rename, Condition.renameAll_congr (b := b) cs h]
  | .any cs, h => by
    rw [Condition.rename, Condition.rename, Condition.renameAll_congr (b := b) cs h]
  | .not c, h => by
    rw [Condition.rename, Condition.rename, Condition.rename_congr (b := true) c h]
  | .optional c, h => by
    rw [Condition.rename, Condition.rename, Condition.rename_congr (b := b) c h]
  | .related r p, h => by
    obtain ⟨hr, hp⟩ := List.forall_mem_append.mp h
    rw [Condition.rename, Condition.rename, NodePattern.rename_congr (b := b) p hp,
      Relation.rename_congr (Occurrence.of_references (P := fun u => f u = g u) hr)]

theorem Condition.renameAll_congr {b : Bool} : ∀ cs : List Condition,
    (∀ o ∈ Condition.occurrencesAll b cs, f o.var = g o.var) →
      Condition.renameAll f cs = Condition.renameAll g cs
  | [], _ => rfl
  | c :: cs, h => by
    obtain ⟨hc, hcs⟩ := List.forall_mem_append.mp h
    rw [Condition.renameAll, Condition.renameAll, Condition.rename_congr (b := b) c hc,
      Condition.renameAll_congr (b := b) cs hcs]

end

end rename

/-- Numbers by first appearance carry over along a map that keeps the elements apart. -/
theorem idxOf_map_of_mem {α β : Type} [BEq α] [LawfulBEq α] [BEq β] [LawfulBEq β] {f : α → β}
    {as : List α} {a : α} (h : ∀ x ∈ as, f x = f a → x = a) :
    (as.map f).idxOf (f a) = as.idxOf a := by
  induction as with
  | nil => rfl
  | cons x as ih =>
    obtain ⟨hx, has⟩ := List.forall_mem_cons.mp h
    rw [List.map_cons, List.idxOf_cons, List.idxOf_cons, ih has]
    by_cases hxa : x = a
    · subst hxa
      rw [beq_self_eq_true, beq_self_eq_true]
    · rw [beq_eq_false_iff_ne.mpr hxa, beq_eq_false_iff_ne.mpr fun hf => hxa (hx hf)]

theorem eraseDups_map {α β : Type} [BEq α] [LawfulBEq α] [BEq β] [LawfulBEq β] {f : α → β}
    (as : List α) (h : ∀ x ∈ as, ∀ y ∈ as, f x = f y → x = y) :
    (as.map f).eraseDups = as.eraseDups.map f := by
  match as with
  | [] => rfl
  | a :: as =>
    have hlength : (as.filter fun x => !x == a).length < as.length + 1 :=
      Nat.lt_succ_of_le (List.length_filter_le ..)
    have hdifferent : (as.map f).filter (fun y => !y == f a) =
        (as.filter fun x => !x == a).map f := by
      rw [List.filter_map]
      refine congrArg (List.map f) (List.filter_congr fun x hx => ?_)
      have hiff : (f x == f a) = (x == a) := by
        rw [Bool.eq_iff_iff, beq_iff_eq, beq_iff_eq]
        exact ⟨h x (List.mem_cons_of_mem a hx) a (List.mem_cons_self ..), congrArg f⟩
      exact congrArg Bool.not hiff
    rw [List.map_cons, List.eraseDups_cons, List.eraseDups_cons, List.map_cons, hdifferent,
      eraseDups_map _ fun x hx y hy => h x (List.mem_cons_of_mem a (List.mem_filter.mp hx).1) y
        (List.mem_cons_of_mem a (List.mem_filter.mp hy).1)]
termination_by as.length

namespace PatternReader

variable {n : Nat} {σ : Spelling} {rest : List Char}

/-! ## Nodes -/

theorem IsDescription.node {q : Part} {d : Description} {v : Option VarId}
    (h : IsDescription σ q d v) (s : Source) :
    nodePattern s q = .ok (.mk (d.rename (s.numbering σ)) (v.map (s.numbering σ)) none) := by
  obtain ⟨r, i, w, qs⟩ := q
  obtain rfl : r = description := h.rule
  rw [nodePattern]
  exact bind_eq_ok.mpr ⟨_, h.read s, rfl⟩

theorem reads_describedTarget {d : Description} {v : Option VarId} (hd : d.test.Writable)
    (hname : ∀ u ∈ d.test.references ++ v.toList, Text.isName (σ.name u).toList = true)
    (hrest : EndsDescription rest) (hn : (d.written σ v ++ rest).length ≤ n) :
    ∃ q, Reads patternGrammar n .spaced target (d.written σ v ++ rest) (some (rest, [q])) ∧
      IsDescription σ q d v := by
  obtain ⟨q, hdescription, hq⟩ := reads_description (k := .spaced) (by decide) hd hname hrest hn
  -- the target is not a node in parentheses
  refine ⟨q, .altRight (.noFirst (.noFirst (reads_noText (c := '(') fun hhead => ?_)))
    hdescription, hq⟩
  obtain ⟨x, hx, hfirst⟩ := head?_description (σ := σ) (v := v) hd
  obtain rfl := Option.some.inj ((hfirst rest).symm.trans hhead)
  exact absurd hx (by decide)

/-- A target without conditions is a node. -/
theorem reads_lone {cs : List Char} {q : Part} {d : Description} {v : Option VarId}
    (htarget : Reads patternGrammar n .spaced target cs (some (rest, [q])))
    (hq : IsDescription σ q d v) (hrest : Stops rest) (hn : cs.length ≤ n) :
    ∃ q', Reads patternGrammar n .spaced (.rule nodeExpr) cs (some (rest, [q'])) ∧
      IsNode σ q' (.mk d v none) := by
  have hnone : Reads patternGrammar n .spaced (.rule disjunction) rest none :=
    .noRule (.noFirst (.noRule (.noFirst hrest.noOpening.reads_none)))
  have hbody : Reads patternGrammar n .spaced (body nodeExpr) cs (some (rest, [q])) :=
    reads_spaced htarget hrest.afterBlanks (.noOpt hnone)
  obtain ⟨i, w, hnode⟩ := reads_part (k := .spaced) (r := nodeExpr) (by decide) hbody hn
  refine ⟨_, hnode, fun s => ?_, fun b => ?_⟩
  · rw [nodePattern]
    exact hq.node s
  · rw [mentions_of_isTransparent rfl, List.flatMap_singleton, hq.keys]
    rfl

/-- A target and a condition, behind blanks, are a node. -/
theorem reads_conditioned {cs more later : List Char} {q q' : Part} {d : Description}
    {v : Option VarId} {c : Condition}
    (htarget : Reads patternGrammar n .spaced target cs (some (more, [q])))
    (hq : IsDescription σ q d v) (hmore : afterBlanks more = later)
    (hcondition : Reads patternGrammar n .spaced (.rule disjunction) later (some (rest, [q'])))
    (hq' : IsCondition σ q' c) (hn : cs.length ≤ n) :
    ∃ q'', Reads patternGrammar n .spaced (.rule nodeExpr) cs (some (rest, [q''])) ∧
      IsNode σ q'' (.mk d v (some c)) := by
  have hbody : Reads patternGrammar n .spaced (body nodeExpr) cs (some (rest, [q, q'])) :=
    reads_spaced htarget hmore (.opt hcondition)
  obtain ⟨i, w, hnode⟩ := reads_part (k := .spaced) (r := nodeExpr) (by decide) hbody hn
  refine ⟨_, hnode, fun s => ?_, fun b => ?_⟩
  · rw [nodePattern]
    exact bind_eq_ok.mpr ⟨_, hq.node s, bind_eq_ok.mpr ⟨_, hq'.read s, rfl⟩⟩
  · rw [mentions_of_isTransparent rfl, List.flatMap_cons, List.flatMap_singleton, List.map_append,
      hq.keys, hq'.keys, ← List.map_append]
    rfl

theorem node_of_description {d : Description} {v : Option VarId} (hd : d.test.Writable)
    (hname : ∀ u ∈ d.test.references ++ v.toList, Text.isName (σ.name u).toList = true) :
    NodeReadsBack n σ (.mk d v none) := by
  intro rest hrest hn
  have hcloses : Closes rest := fun c hc => .inl (hrest c hc)
  obtain ⟨q, htarget, hq⟩ :=
    reads_describedTarget hd hname (fun c hc => .inr (hrest c hc)) hn
  exact reads_lone htarget hq hcloses.stops hn

theorem node_of_condition {d : Description} {v : Option VarId} {c : Condition}
    (hd : d.test.Writable)
    (hname : ∀ u ∈ d.test.references ++ v.toList, Text.isName (σ.name u).toList = true)
    (hc : c.Writable) (h : DisjunctionReadsBack n σ c) :
    NodeReadsBack n σ (.mk d v (some c)) := by
  intro rest hrest hn
  have htext : (NodePattern.mk d v (some c)).written σ ++ rest =
      d.written σ v ++ ' ' :: (c.written σ false ++ rest) := by
    rw [NodePattern.written, List.append_assoc]
    rfl
  have hn' := hn
  rw [htext] at hn'
  have hblank : EndsDescription (' ' :: (c.written σ false ++ rest)) :=
    fun x hx => .inl (Option.some.inj hx).symm
  obtain ⟨q, htarget, hq⟩ := reads_describedTarget hd hname hblank hn'
  obtain ⟨q', hdisjunction, -, hq'⟩ := h rest (fun x hx => .inl (hrest x hx))
    (length_later (w := [' ']) (length_later hn'))
  rw [htext]
  exact reads_conditioned htarget hq (afterBlanks_disjunction hc _) hdisjunction hq' hn'

/-! ## Patterns -/

mutual

/-- **A pattern is read back**, at the end of the text and before a closing parenthesis. -/
theorem node_readsBack {b : Bool} : ∀ p : NodePattern, p.Writable →
    (∀ o ∈ p.occurrences b, Text.isName (σ.name o.var).toList = true) → NodeReadsBack n σ p
  | .mk d v none, hp, h => node_of_description hp
      (Occurrence.of_described (P := fun u => Text.isName (σ.name u).toList = true) h)
  | .mk d v (some c), ⟨hd, hc⟩, h => by
    obtain ⟨hdescribed, hnames⟩ := List.forall_mem_append.mp h
    exact node_of_condition hd
      (Occurrence.of_described (P := fun u => Text.isName (σ.name u).toList = true) hdescribed) hc
      (condition_readsBack (b := b) c hc hnames).2

/-- **A condition is read back**, as a part of another one and as one that is no part. -/
theorem condition_readsBack {b : Bool} : ∀ c : Condition, c.Writable →
    (∀ o ∈ c.occurrences b, Text.isName (σ.name o.var).toList = true) →
      TermReadsBack n σ c ∧ DisjunctionReadsBack n σ c
  | .all cs, hc, h => by
    have hall := disjunction_of_all hc (conditions_readBack (b := b) cs hc.2 h)
    exact ⟨term_of_disjunction hc rfl hall, hall⟩
  | .any cs, hc, h => by
    have hany := disjunction_of_any hc (conditions_readBack (b := b) cs hc.2 h)
    exact ⟨term_of_disjunction hc rfl hany, hany⟩
  | .not c, hc, h => by
    have hpart : c.Writable := hc
    have hnot := term_of_marked .negation rfl hpart (condition_readsBack (b := true) c hpart h).1
    exact ⟨hnot, disjunction_of_term rfl hnot⟩
  | .optional c, hc, h => by
    have hpart : c.Writable := hc
    have hoptional :=
      term_of_marked .optional rfl hpart (condition_readsBack (b := b) c hpart h).1
    exact ⟨hoptional, disjunction_of_term rfl hoptional⟩
  | .related r p, ⟨hr, hp⟩, h => by
    obtain ⟨hreferences, hnames⟩ := List.forall_mem_append.mp h
    have hrelated := term_of_related hr hp
      (Occurrence.of_references (P := fun u => Text.isName (σ.name u).toList = true) hreferences)
      (node_readsBack (b := b) p hp hnames)
    exact ⟨hrelated, disjunction_of_term rfl hrelated⟩

theorem conditions_readBack {b : Bool} : ∀ cs : List Condition, Condition.WritableAll cs →
    (∀ o ∈ Condition.occurrencesAll b cs, Text.isName (σ.name o.var).toList = true) →
      ∀ c ∈ cs, TermReadsBack n σ c
  | [], _, _ => fun c hc => absurd hc List.not_mem_nil
  | c :: cs, ⟨hc, hcs⟩, h => by
    obtain ⟨hfirst, hothers⟩ := List.forall_mem_append.mp h
    exact List.forall_mem_cons.mpr ⟨(condition_readsBack (b := b) c hc hfirst).1,
      conditions_readBack (b := b) cs hcs hothers⟩

end

variable {root : NodePattern}

/-- A node up to the end of the text is a pattern: the end of the text mentions nothing. -/
theorem parse_node {cs : List Char} {q : Part}
    (h : Reads patternGrammar cs.length .spaced (.rule nodeExpr) cs (some ([], [q])))
    (hblanks : afterBlanks cs = cs) :
    ∃ w e, patternGrammar.parse pattern cs = .ok (.node pattern 0 w [q, e]) ∧
      ∀ b, mentions b (.node pattern 0 w [q, e]) = mentions b q := by
  obtain ⟨i, w, hend⟩ := reads_part (g := patternGrammar) (n := cs.length)
    (k := .spaced) (r := endOfText) (by decide) .textEnd (Nat.zero_le _)
  have hbody : Reads patternGrammar cs.length .spaced (body pattern).afterStart cs
      (some ([], [] ++ [q] ++ [.node endOfText i w []])) :=
    reads_spaced (reads_spaced (.text rfl) hblanks h) rfl hend
  refine ⟨_, _, (parse_eq_ok_iff bounds_hold rfl (by decide)).mpr ⟨[], _, hbody, rfl⟩,
    fun b => ?_⟩
  rw [mentions_of_isTransparent rfl, List.flatMap_cons, List.flatMap_singleton]
  exact List.append_nil _

/-- What a written pattern is parsed as. -/
theorem parse_written_node (h : NodeReadsBack (root.written σ).length σ root)
    (hroot : root.Writable) :
    ∃ q w e, patternGrammar.parse pattern (root.written σ) = .ok (.node pattern 0 w [q, e]) ∧
      IsNode σ q root ∧ ∀ b, mentions b (.node pattern 0 w [q, e]) = mentions b q := by
  obtain ⟨q, hnode, hq⟩ := h [] (by simp) (by simp)
  have hblanks := afterBlanks_node (σ := σ) hroot []
  rw [List.append_nil] at hnode hblanks
  obtain ⟨w, e, hparse, hmentions⟩ := parse_node hnode hblanks
  exact ⟨q, w, e, hparse, hq, hmentions⟩

theorem names_of_keys {ms : List Mention}
    (hkeys : ms.map Mention.key = (root.occurrences false).map (Occurrence.key σ))
    (hnamed : root.Named σ) :
    (ms.map (·.name)).eraseDups = root.firstVariables.map σ.name := by
  have hnames : ms.map (·.name) = root.variables.map σ.name := by
    have hfirst := congrArg (List.map Prod.fst) hkeys
    rw [List.map_map, List.map_map] at hfirst
    rw [NodePattern.variables, List.map_map]
    exact hfirst
  rw [hnames, eraseDups_map _ hnamed.injective, NodePattern.firstVariables]

/-- **Names are numbered as the variables are that they stand for.** -/
theorem numbering_eq {s : Source} (hnames : s.names = root.firstVariables.map σ.name)
    (hnamed : root.Named σ) {v : VarId} (hv : v ∈ root.variables) :
    s.numbering σ v = root.firstVariables.idxOf v := by
  rw [Source.numbering, Source.variable, hnames]
  exact idxOf_map_of_mem fun u hu => hnamed.injective u (List.mem_eraseDups.mp hu) v hv

theorem referenceFault_eq_none {ms : List Mention}
    (hkeys : ms.map Mention.key = (root.occurrences false).map (Occurrence.key σ))
    (hsees : root.SeesCaptures) {m : Mention} (hm : m ∈ ms) : referenceFault ms m = none := by
  have hkey : m.key ∈ (root.occurrences false).map (Occurrence.key σ) :=
    hkeys ▸ List.mem_map_of_mem hm
  obtain ⟨o, ho, hom⟩ := List.mem_map.mp hkey
  obtain ⟨hname, hcaptures, hnegated⟩ : σ.name o.var = m.name ∧ o.captures = m.captures ∧
      o.negated = m.negated := by simpa [Occurrence.key, Mention.key] using hom
  unfold referenceFault
  by_cases hcapture : m.captures = true
  · rw [if_pos hcapture]
  · rw [if_neg hcapture]
    -- the capture that the variable has is mentioned
    obtain ⟨o', ho', hcaptures', hvar, hvisible⟩ := hsees o ho (by simpa [hcaptures] using hcapture)
    have hkey' : o'.key σ ∈ ms.map Mention.key := hkeys ▸ List.mem_map_of_mem ho'
    obtain ⟨m', hm', hmo⟩ := List.mem_map.mp hkey'
    obtain ⟨hname', hcapture', hnegated'⟩ : m'.name = σ.name o'.var ∧ m'.captures = o'.captures ∧
        m'.negated = o'.negated := by simpa [Occurrence.key, Mention.key] using hmo
    have hsame : m'.name = m.name := by rw [hname', hvar, hname]
    have hknown : (ms.any fun other => other.captures && other.name == m.name) = true :=
      List.any_eq_true.mpr ⟨m', hm', by simp [hcapture', hcaptures', hsame]⟩
    rw [if_neg (by simp [hknown])]
    by_cases hnegation : m.negated = true
    · rw [if_neg (by simp [hnegation])]
    · have hplain : m'.negated = false := by
        rw [hnegated']
        exact hvisible (by simpa [hnegated] using hnegation)
      have hseen : isVisible ms m.name = true :=
        List.any_eq_true.mpr ⟨m', hm', by simp [hcapture', hcaptures', hplain, hsame]⟩
      rw [if_neg (by simp [hseen])]

end PatternReader

open PatternReader

namespace Pattern

/-- A node without variables up to the end of the text is a pattern that has no names. -/
theorem parse_unnamed {σ : Spelling} {cs : List Char} {q : Part} {root : NodePattern}
    (h : Reads patternGrammar cs.length .spaced (.rule nodeExpr) cs (some ([], [q])))
    (hblanks : afterBlanks cs = cs) (hq : IsNode σ q root) (hnone : root.occurrences false = [])
    (hsame : ∀ f, root.rename f = root) (marks : Marks) :
    Pattern.parse (String.ofList cs) marks = .ok ⟨String.ofList cs, root, [], [], marks⟩ := by
  obtain ⟨w, e, hparse, hmentions⟩ := parse_node h hblanks
  have hno : mentions false q = [] := by
    have hkeys := hq.keys false
    rw [hnone] at hkeys
    exact List.map_eq_nil_iff.mp hkeys
  unfold Pattern.parse
  dsimp only
  rw [String.toList_ofList, hparse]
  dsimp only [Parse.parts]
  rw [hmentions false, hno, hq.read, hsame]
  rfl

/-- **A written pattern is read back**, with its variables numbered in the order in which they first
appear. -/
theorem parse_written (σ : Spelling) (root : NodePattern) (marks : Marks)
    (hwritable : root.Writable) (hnamed : root.Named σ) (hsees : root.SeesCaptures) :
    ∃ p, Pattern.parse (String.ofList (root.written σ)) marks = .ok p ∧ p.root = root.numbered ∧
      p.names = root.firstVariables.map σ.name := by
  have hvariable : ∀ o ∈ root.occurrences false, o.var ∈ root.variables :=
    fun o ho => List.mem_map_of_mem ho
  obtain ⟨q, w, e, hparse, hq, hmentions⟩ := parse_written_node (node_readsBack (b := false) root
    hwritable fun o ho => hnamed.isName o.var (hvariable o ho)) hwritable
  have hkeys := hq.keys false
  have hnames := names_of_keys hkeys hnamed
  have hfault : ∀ s, firstFault s (mentions false q) = none := by
    intro s
    refine List.findSome?_eq_none_iff.mpr fun m hm => ?_
    rw [referenceFault_eq_none hkeys hsees hm]
    rfl
  -- what the parse stands for is known once its names are numbered
  have hroot : ∀ s : Source, s.names = root.firstVariables.map σ.name →
      nodePattern s q = .ok root.numbered := by
    intro s hs
    rw [hq.read, NodePattern.numbered]
    exact congrArg Except.ok (root.rename_congr (b := false) fun o ho =>
      numbering_eq hs hnamed (hvariable o ho))
  unfold Pattern.parse
  dsimp only
  rw [String.toList_ofList, hparse]
  dsimp only [Parse.parts]
  rw [hmentions false, hnames, hroot _ rfl]
  simp only [hfault]
  exact ⟨_, rfl, rfl, rfl⟩

theorem parse_written_of_disjunction :
    let σ : Spelling := .usual fun v => if v == 7 then "top" else "low"
    let root : NodePattern :=
      .mk ⟨false, .oneOf [.literal "NP", .category "a\"b"], [.preterminal]⟩ (some 7)
        (some (.any [
          .all [.related .parentOf (.mk .any (some 3) none),
            .optional (.related (.nthChild (-2)) (.mk ⟨true, .sameLabel 7, []⟩ none none))],
          .not (.related (.dominatesVia .any) (.mk ⟨false, .sameNode 3, []⟩ none none))]))
    let text := "\"NP\"|@\"a\\\"b\":preterminal=top [< (__=low) & ?<-2 (!~top)] | !<+(__) (=low)"
    root.Writable ∧ root.Named σ ∧ root.SeesCaptures ∧ String.ofList (root.written σ) = text ∧
      ∃ p, Pattern.parse text .standard = .ok p ∧ p.names = ["top", "low"] ∧
        p.root = .mk ⟨false, .oneOf [.literal "NP", .category "a\"b"], [.preterminal]⟩ (some 0)
          (some (.any [
            .all [.related .parentOf (.mk .any (some 1) none),
              .optional (.related (.nthChild (-2)) (.mk ⟨true, .sameLabel 0, []⟩ none none))],
            .not (.related (.dominatesVia .any) (.mk ⟨false, .sameNode 1, []⟩ none none))])) := by
  intro σ root text
  have hwritable : root.Writable := by
    simp [root, NodePattern.Writable, Condition.Writable, Condition.WritableAll,
      Relation.Writable, LabelTest.Writable, Atom.Writable, Description.any,
      show Text.fitsInt32 (-2) = true by decide]
  have hnamed : root.Named σ := ⟨by decide, by decide⟩
  have hsees : root.SeesCaptures := by
    unfold NodePattern.SeesCaptures
    decide
  have htext : String.ofList (root.written σ) = text := by decide
  have hvariables : root.firstVariables.map σ.name = ["top", "low"] := by decide
  obtain ⟨p, hparse, hroot, hnames⟩ := parse_written σ root .standard hwritable hnamed hsees
  rw [htext] at hparse
  rw [hvariables] at hnames
  exact ⟨hwritable, hnamed, hsees, htext, p, hparse, hnames, hroot⟩

/-- A child is counted from 1 on the left or from -1 on the right, so there is none at 0: what is
written for it is refused. -/
theorem position_zero_is_refused : ¬ ∀ (i : Int) (marks : Marks), Text.fitsInt32 i = true →
    ∃ p, Pattern.parse (String.ofList ((NodePattern.mk .any none
      (some (.related (.nthChild i) (.mk .any none none)))).written (.usual toString))) marks =
        .ok p := by
  intro hall
  obtain ⟨p, hp⟩ := hall 0 .standard (by decide)
  have hrefused : (Pattern.parse "__ <0 (__)" .standard).toOption.isSome = false := rfl
  have hread := congrArg (fun x => x.toOption.isSome) hp
  exact absurd (hrefused.symm.trans hread) Bool.false_ne_true

end Pattern

end Constituency
