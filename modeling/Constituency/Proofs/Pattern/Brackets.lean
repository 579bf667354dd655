import Constituency.Proofs.Pattern.Seams

/-!
# Conditions and nodes in front of more text

Terms, conditions and nodes are kept in front of more text if what is left of them is not what they
go on with. Each of them asks this of what is left: a term that no alternative and no parenthesis
follows (`EndsTerm`), a conjunction that no further term follows (`EndsConjunction`), a disjunction
that a bracket closes (`EndsDisjunction`), a node that a parenthesis closes (`EndsNode`).

They contain each other in brackets, and what is read behind an opening bracket is shorter, so this
is shown for all of them at once by induction on the length of the text (`keptBelow`). In particular
targets are read in front of a blank, and conditions and nodes in front of what closes a bracket.
-/

namespace Constituency

open Grammar PatternRule

namespace PatternReader

variable {n : Nat} {k : Kind} {u v z cs : List Char}

/-! ## Blanks at a seam -/

/-- Whether the blanks in front of a text end in it, or nothing but what follows it is left. -/
def Settled (z u : List Char) : Prop := afterBlanks (u ++ z) = afterBlanks u ++ z

theorem settled_of_ne (h : afterBlanks u ≠ []) : Settled z u := by
  unfold Settled afterBlanks at *
  rw [List.dropWhile_append, if_neg (by simpa using h)]

theorem Settled.of_later (h : Settled z (afterBlanks u)) : Settled z u := by
  by_cases hu : afterBlanks u = []
  · unfold Settled at *
    rw [hu] at h ⊢
    unfold afterBlanks at *
    rw [List.dropWhile_append, if_pos (by simp [hu])]
    exact h
  · exact settled_of_ne hu

/-- Where something is read behind blanks, they end. -/
theorem settled_of_reads {e : Expr PatternRule} {x : List Char × List Part}
    (hbounded : e.bounded bounds = true) (htakes : e.takes bounds = true)
    (h : Reads patternGrammar n k e (afterBlanks u) (some x)) : Settled z u := by
  refine settled_of_ne fun hu => ?_
  rw [hu] at h
  exact absurd ((reads_nothing bounds_hold hbounded htakes).unique h) (by simp)

/-- A text that begins with a character that is no blank has no blanks in front. -/
theorem afterBlanks_of_head? {c : Char} (h : cs.head? = some c) (hc : blanks.contains c = false) :
    afterBlanks cs = cs :=
  afterBlanks_eq fun _ hx => Option.some.inj (h.symm.trans hx) ▸ hc

/-- What is left behind blanks is the end of the text. -/
theorem suffix_behind {e : Expr PatternRule} {ps : List Part}
    (h : Reads patternGrammar n k e v (some (u, ps))) : afterBlanks u <:+ v :=
  (List.dropWhile_suffix _).trans h.suffix_some

/-- A sequence with blanks between its parts. -/
theorem kept_spaced (before : List Char → Prop) {asked : List Char → Prop}
    {a b : Expr PatternRule}
    (ha : Kept n z .spaced a before v)
    (hb : ∀ u ps, Reads patternGrammar n .spaced a v (some (u, ps)) →
      Kept n z .spaced b asked (afterBlanks u))
    (h : ∀ u v' ps, Reads patternGrammar n .spaced b (afterBlanks u) (some (v', ps)) → asked v' →
      before u ∧ Settled z u) :
    Kept n z .spaced (.seq a b) asked v := by
  intro v' ps hreads hasked
  cases hreads with
  | seq hfirst hgap hsecond =>
    obtain ⟨rfl, -⟩ := Prod.mk.inj (Option.some.inj ((reads_blanks _).unique hgap))
    obtain ⟨hbefore, hsettled⟩ := h _ _ _ hsecond hasked
    exact reads_spaced (ha _ _ hfirst hbefore) hsettled (hb _ _ hfirst _ _ hsecond hasked)

/-- A sequence whose first part is found in the same way whatever is left of it, and whose second
part is not nothing. -/
theorem kept_spaced_always {asked : List Char → Prop} {a b : Expr PatternRule}
    (hbounded : b.bounded bounds = true) (htakes : b.takes bounds = true)
    (ha : Kept n z .spaced a (fun _ => True) v)
    (hb : ∀ u ps, Reads patternGrammar n .spaced a v (some (u, ps)) →
      Kept n z .spaced b asked (afterBlanks u)) :
    Kept n z .spaced (.seq a b) asked v :=
  kept_spaced (fun _ => True) ha hb fun _ _ _ h _ => ⟨trivial, settled_of_reads hbounded htakes h⟩

/-- A rule behind a mark is found in a shorter text. -/
theorem kept_behind {mark : Expr PatternRule} {r : PatternRule} {asked : List Char → Prop}
    (hbounded : (Expr.rule r).bounded bounds = true) (htakes : bounds.takes r = true)
    (hmark : Kept n z .spaced mark (fun _ => True) v) (hsome : mark.takes bounds = true)
    (h : ∀ u, u.length < v.length → Kept n z .spaced (.rule r) asked u) :
    Kept n z .spaced (.seq mark (.rule r)) asked v :=
  kept_spaced_always hbounded htakes hmark fun _ _ hreads =>
    h _ (Nat.lt_of_le_of_lt (List.dropWhile_suffix _).length_le
      (hreads.takes bounds_hold hsome _ rfl))

/-- So is a rule between two brackets. -/
theorem kept_between {o c : Char} {r : PatternRule} {ends : List Char → Prop}
    (hbounded : (Expr.rule r).bounded bounds = true) (htakes : bounds.takes r = true)
    (hends : ∀ u, (afterBlanks u ++ z).head? = some c → ends u)
    (h : ∀ u, u.length < v.length → Kept n z .spaced (.rule r) ends u) :
    Kept n z .spaced (.seq (.seq (.text [o]) (.rule r)) (.text [c])) (fun _ => True) v :=
  kept_spaced ends (kept_behind hbounded htakes keptAt_text rfl h) (fun _ _ _ => keptAt_text)
    fun u _ _ hclosing _ =>
      ⟨hends u (head?_append_of (hclosing.head?_mark rfl)), settled_of_reads rfl rfl hclosing⟩

/-- A list of parts, each of which may be followed by another one. -/
theorem kept_list {part item : Expr PatternRule} {ends asked : List Char → Prop}
    (hpart : Kept n z .spaced part ends v) (hitem : ∀ u, u <:+ v → Kept n z .spaced item ends u)
    (hmore : ∀ u x, Reads patternGrammar n .spaced item (afterBlanks u) (some x) →
      ends u ∧ Settled z u)
    (hends : ∀ u, asked (afterBlanks u) → ends u ∧ Settled z u) (hlast : ∀ u, asked u → ends u)
    (hnone : ∀ u cs, asked u → afterBlanks cs = afterBlanks (u ++ z) →
      Reads patternGrammar (n + z.length) .spaced item cs none) :
    Kept n z .spaced (.seq part (.many item)) asked v := by
  have hblanks : ∀ {u u' : List Char} {qs : List Part},
      Reads patternGrammar n .token (patternGrammar.gap .spaced) u (some (u', qs)) →
      u' = afterBlanks u ∧ qs = [] :=
    fun h => Prod.mk.inj (Option.some.inj ((reads_blanks _).unique h))
  refine kept_spaced ends hpart (fun u ps h => ?_) fun u v' ps h hasked => ?_
  · refine KeptAt.many (q := fun u _ => ends u)
      (fun w hw => hitem w (hw.trans (suffix_behind h))) ?_
      (fun w _ => hlast w) (fun w _ hw _ => hnone w _ hw rfl) ?_
    · intro w w' v' ps rs qs hgap _ hnext hasked
      obtain ⟨rfl, rfl⟩ := hblanks hgap
      obtain ⟨x, hx⟩ := hnext
      obtain ⟨hends, hsettled⟩ := hmore w x hx
      exact ⟨hasked, hends, hsettled ▸ reads_blanks _⟩
    · intro w w' ps qs hasked _ _
      exact ⟨_, _, reads_blanks _, hnone w _ hasked (afterBlanks_idem _)⟩
  · cases h with
    | manyNone _ => exact hends u hasked
    | manyLast hfirst _ _ => exact hmore u _ hfirst
    | manyMore hfirst _ _ _ => exact hmore u _ hfirst

/-! ## Targets -/

/-- A description begins neither with a parenthesis nor with a blank. -/
theorem reads_noDescription {c : Char} (hc : c ∈ '(' :: blanks) (h : cs.head? = some c) :
    Reads patternGrammar n k (.rule description) cs none := by
  have hall : (('(' :: blanks).all fun c =>
      !opensLabel c && !(['_', '=', '~', '%', '!'].contains c)) = true := rfl
  obtain ⟨hlabel, hother⟩ : opensLabel c = false ∧ c ∉ ['_', '=', '~', '%', '!'] := by
    simpa using List.all_eq_true.mp hall c hc
  have hne : ∀ {d : Char}, d ∈ ['_', '=', '~', '%', '!'] → cs.head? ≠ some d :=
    fun hd hhead => hother (Option.some.inj (h.symm.trans hhead) ▸ hd)
  have hatom : Reads patternGrammar n .tight (.rule PatternRule.atom) cs none :=
    reads_noAtom fun d hd => Option.some.inj (h.symm.trans hd) ▸ hlabel
  have htest : Reads patternGrammar n .tight (.rule PatternRule.labelTest) cs none :=
    .noRule (.altRight (.altRight (.altRight
        (.noRule (reads_noMark (c := '_') rfl (hne (by decide))))
        (.noRule (reads_noMark (c := '=') rfl (hne (by decide)))))
      (.noRule (.noFirst (.altRight (reads_noMark (c := '~') rfl (hne (by decide)))
        (reads_noMark (c := '%') rfl (hne (by decide)))))))
      (.noRule (.noFirst hatom)))
  have hnegation : Reads patternGrammar n .tight (.opt (.rule descriptionNegation)) cs
      (some (cs, [])) := .noOpt (.noRule (reads_noMark (c := '!') rfl (hne (by decide))))
  exact .noRule (.noFirst (.noSecond hnegation (reads_gap (k := .tight) (by decide) _) htest))

/-- No blanks are skipped in front of a target. -/
theorem afterBlanks_of_target {x : List Char × List Part}
    (h : Reads patternGrammar n .spaced target cs (some x)) : afterBlanks cs = cs := by
  refine afterBlanks_eq fun c hc => Bool.eq_false_iff.mpr fun hblank => ?_
  have hmem : c ∈ blanks := by simpa using hblank
  cases h with
  | altLeft h =>
    obtain rfl := Option.some.inj ((h.head?_mark (c := '(') rfl).symm.trans hc)
    exact absurd hmem (by decide)
  | altRight _ h =>
    exact absurd ((reads_noDescription (List.mem_cons_of_mem _ hmem) hc).unique h) (by simp)

/-- Of a plus in front of a parenthesis only the plus is a target. -/
theorem eq_of_reads_target {w : List Char} {ps : List Part}
    (h : Reads patternGrammar n .spaced target ('+' :: '(' :: w) (some (u, ps))) :
    u = '(' :: w := by
  have hlength : ('+' :: '(' :: w).length ≤ n := by
    cases h with
    | altLeft h => exact absurd (h.head?_mark (c := '(') rfl) (by simp)
    | altRight _ h =>
      cases h with
      | rule _ _ hi => omega
  have hplus : IsBare ['+'] := ⟨by decide, List.all_eq_true.mp rfl, by decide⟩
  have hno : ¬ BeginsAsWildcard ['+'] := fun ⟨_, _, h, _⟩ => absurd h (by simp)
  have hrest : EndsBare ('(' :: w) := fun c hc => .inr (.inr (Option.some.inj hc).symm)
  obtain ⟨q, hq, -⟩ := hplus.describesTarget (σ := .usual fun _ => "") hno hrest n hlength
  exact (Prod.mk.inj (Option.some.inj (hq.unique h))).1

/-- A text that may be left of a node in parentheses in front of `z`. -/
def EndsNode (z u : List Char) : Prop := (afterBlanks u ++ z).head? = some ')'

/-- A text that may be left of a term. -/
structure EndsTerm (u : List Char) : Prop where
  alternatives : EndsAlternatives u
  no_opening : u.head? ≠ some '('

section apart

variable (hz : SetsApart z)

include hz

theorem kept_target
    (hnode : ∀ u, u.length < v.length → Kept n z .spaced (.rule nodeExpr) (EndsNode z) u) :
    Kept n z .spaced target EndsAlternatives v := by
  have hclosed : Kept n z .spaced (.lit "(" ++ .rule nodeExpr ++ .lit ")") (fun _ => True) v :=
    kept_between rfl rfl (fun _ h => h) hnode
  refine KeptAt.alt (hclosed.mono fun _ _ _ => trivial) (kept_description hz)
    fun v' ps _ h _ => reads_noMark (c := '(') rfl (head?_append_ne (hz.head_ne (by decide)) ?_)
  intro hopening
  exact absurd ((reads_noDescription (List.mem_cons_self ..) hopening).unique h) (by simp)

theorem kept_relation
    (hnode : ∀ u, u.length < v.length → Kept n z .spaced (.rule nodeExpr) (EndsNode z) u) :
    Kept n z .spaced (.rule relation) EndsTerm v := by
  refine KeptAt.rule_rest ?_
  refine kept_spaced EndsOperator (kept_relationOp hz) (fun u ps h => ?_)
    fun u v' ps h hv' => ⟨?_, ?_⟩
  · have hshorter := (suffix_behind h).length_le
    exact (kept_target hz fun w hw => hnode w (Nat.lt_of_lt_of_le hw hshorter)).mono
      fun _ _ h => h.alternatives
  · rintro ⟨w, rfl⟩
    obtain rfl := eq_of_reads_target h
    exact hv'.no_opening rfl
  · exact settled_of_reads rfl rfl h

end apart

/-! ## Conjunctions and disjunctions -/

/-- A text that may be left of a disjunction in front of `z`. -/
def EndsDisjunction (z u : List Char) : Prop := Closes (afterBlanks u ++ z)

/-- A text that may be left of a conjunction in front of `z`. -/
structure EndsConjunction (z u : List Char) : Prop where
  alternatives : EndsAlternatives u
  closes : ∀ c ∈ (afterBlanks u ++ z).head?, c = ')' ∨ c = ']' ∨ c = '|'

theorem settled_of_head (h : ∀ c ∈ (afterBlanks u ++ z).head?, blanks.contains c = false) :
    Settled z u := by
  by_cases hu : afterBlanks u = []
  · rw [hu, List.nil_append] at h
    refine Settled.of_later ?_
    rw [Settled, hu]
    exact afterBlanks_eq h
  · exact settled_of_ne hu

theorem head?_afterBlanks {c : Char} (h : u.head? = some c) (hc : blanks.contains c = false) :
    (afterBlanks u ++ z).head? = some c := by
  rw [afterBlanks_of_head? h hc]
  exact head?_append_of h

theorem EndsConjunction.of_later (h : EndsConjunction z (afterBlanks u)) :
    EndsConjunction z u where
  alternatives := by
    by_cases hbar : u.head? = some '|'
    · rw [← afterBlanks_of_head? hbar (by decide)]
      exact h.alternatives
    · exact .of_head hbar
  closes := afterBlanks_idem u ▸ h.closes

theorem EndsDisjunction.of_later (h : EndsDisjunction z (afterBlanks u)) : EndsDisjunction z u := by
  unfold EndsDisjunction at *
  rwa [afterBlanks_idem] at h

namespace EndsConjunction

variable (h : EndsConjunction z u)

include h

theorem settled : Settled z u :=
  settled_of_head fun c hc => by rcases h.closes c hc with rfl | rfl | rfl <;> decide

theorem endsTerm : EndsTerm u where
  alternatives := h.alternatives
  no_opening hhead := by
    have hclosing := h.closes _ (head?_afterBlanks hhead (by decide))
    exact absurd hclosing (by decide)

theorem noConjunct : NoConjunct (afterBlanks (u ++ z)) := by
  refine ⟨afterBlanks_idem _, ?_, ?_⟩
  all_goals rw [h.settled]
  · intro c hc
    rcases h.closes c hc with rfl | rfl | rfl <;> decide
  · intro hand
    exact absurd (h.closes '&' hand) (by decide)

end EndsConjunction

namespace EndsDisjunction

variable (h : EndsDisjunction z u)

include h

theorem endsConjunction : EndsConjunction z u where
  alternatives := .of_head fun hbar =>
    absurd (h '|' (head?_afterBlanks hbar (by decide))) (by decide)
  closes c hc := (h c hc).imp_right .inl

theorem stops : Stops (afterBlanks (u ++ z)) := by
  rw [h.endsConjunction.settled]
  exact Closes.stops h

end EndsDisjunction

theorem EndsNode.endsDisjunction (h : EndsNode z u) : EndsDisjunction z u :=
  fun _ hc => .inl (Option.some.inj (h.symm.trans hc)).symm

/-- What begins behind blanks as nothing does that a term goes on with has ended the term. -/
theorem endsTerm_of_head (hbar : (afterBlanks u).head? ≠ some '|')
    (hopening : (afterBlanks u).head? ≠ some '(') : EndsTerm u where
  alternatives := .of_head fun h => hbar (by rw [afterBlanks_of_head? h (by decide), h])
  no_opening h := hopening (by rw [afterBlanks_of_head? h (by decide), h])

/-- A part of a conjunction behind the first. -/
def nextTerm : Expr PatternRule := .opt (.lit "&") ++ .rule term

/-- A part of a disjunction behind the first. -/
def nextConjunction : Expr PatternRule := .lit "|" ++ .rule conjunction

theorem reads_noNextTerm (h : NoConjunct (afterBlanks cs)) :
    Reads patternGrammar n .spaced nextTerm cs none := by
  by_cases hand : cs.head? = some '&'
  · exact absurd (by rw [afterBlanks_of_head? hand (by decide), hand]) h.no_and
  · exact .noSecond (.noOpt (reads_noText hand)) (reads_blanks cs) h.noOpening.reads_none

theorem reads_noNextConjunction (h : Stops (afterBlanks cs)) :
    Reads patternGrammar n .spaced nextConjunction cs none := by
  refine reads_noMark (c := '|') rfl fun hbar => h.no_bar ?_
  rw [afterBlanks_of_head? hbar (by decide), hbar]

theorem mem_openings_of_term {x : List Char × List Part}
    (h : Reads patternGrammar n .spaced (.rule term) cs (some x)) :
    ∃ c ∈ openings, cs.head? = some c := by
  by_contra hno
  have hnone : NoOpening cs := fun c hc hopening => hno ⟨c, hopening, hc⟩
  exact absurd (hnone.reads_none.unique h) (by simp)

theorem mem_openings_of_conjunction {x : List Char × List Part}
    (h : Reads patternGrammar n .spaced (.rule conjunction) cs (some x)) :
    ∃ c ∈ openings, cs.head? = some c := by
  cases h with
  | rule h _ _ =>
    obtain ⟨y, hy⟩ := h.front
    exact mem_openings_of_term hy

theorem mem_openings_of_disjunction {x : List Char × List Part}
    (h : Reads patternGrammar n .spaced (.rule disjunction) cs (some x)) :
    ∃ c ∈ openings, cs.head? = some c := by
  cases h with
  | rule h _ _ =>
    obtain ⟨y, hy⟩ := h.front
    exact mem_openings_of_conjunction hy

/-- Where a further term is read, the one before it has ended. -/
theorem endsTerm_of_nextTerm {x : List Char × List Part}
    (h : Reads patternGrammar n .spaced nextTerm (afterBlanks u) (some x)) : EndsTerm u := by
  have hne : ∀ {c : Char}, c ∉ openings → c ≠ '&' → (afterBlanks u).head? ≠ some c := by
    intro c hopening hand hc
    have hnone : NoConjunct (afterBlanks (afterBlanks u)) := by
      rw [afterBlanks_idem]
      refine ⟨afterBlanks_idem u, fun d hd => ?_, fun hd => ?_⟩
      · exact Option.some.inj (hc.symm.trans hd) ▸ hopening
      · exact hand (Option.some.inj (hc.symm.trans hd))
    exact absurd ((reads_noNextTerm hnone).unique h) (by simp)
  exact endsTerm_of_head (hne (by decide) (by decide)) (hne (by decide) (by decide))

/-- Where a further conjunction is read, the one before it has ended. -/
theorem endsConjunction_of_next {x : List Char × List Part}
    (h : Reads patternGrammar n .spaced nextConjunction (afterBlanks u) (some x)) :
    EndsConjunction z u where
  alternatives := by
    rintro w rfl c hc
    have hall : ((blanks ++ openings).all fun c => !opensLabel c) = true := rfl
    have hother : ∀ c ∈ blanks ++ openings, opensLabel c = false :=
      fun c hc => by simpa using List.all_eq_true.mp hall c hc
    by_cases hblank : blanks.contains c = true
    · exact hother c (List.mem_append_left _ (by simpa using hblank))
    · refine hother c (List.mem_append_right _ ?_)
      cases h with
      | seq hbar hgap hconjunction =>
        cases hbar with
        | text hw =>
          obtain rfl := (List.cons.inj hw).2
          obtain ⟨rfl, -⟩ := Prod.mk.inj (Option.some.inj ((reads_blanks _).unique hgap))
          rw [afterBlanks_of_head? hc (by simpa using hblank)] at hconjunction
          obtain ⟨d, hd, hhead⟩ := mem_openings_of_conjunction hconjunction
          exact Option.some.inj (hhead.symm.trans hc) ▸ hd
  closes c hc := by
    have hbar := head?_append_of (z := z) (h.head?_mark (c := '|') rfl)
    exact .inr (.inr (Option.some.inj (hbar.symm.trans hc)).symm)

/-! ## Terms, conditions and nodes -/

/-- What shorter texts than `v` are read as is read in front of `z` as well. -/
structure KeptBelow (n : Nat) (z v : List Char) : Prop where
  nodeExpr : ∀ u, u.length < v.length → Kept n z .spaced (.rule nodeExpr) (EndsNode z) u
  disjunction : ∀ u, u.length < v.length →
    Kept n z .spaced (.rule disjunction) (EndsDisjunction z) u
  term : ∀ u, u.length < v.length → Kept n z .spaced (.rule term) EndsTerm u

theorem mem_signs_of_relation {x : List Char × List Part}
    (h : Reads patternGrammar n .spaced (.rule relation) cs (some x)) :
    ∃ c ∈ signs, cs.head? = some c := by
  by_contra hno
  have hnone : Reads patternGrammar n .spaced (.rule relation) cs none :=
    reads_noRelation fun c hc hsign => hno ⟨c, hsign, hc⟩
  exact absurd (hnone.unique h) (by simp)

/-- A term behind a mark. -/
theorem kept_marked {mark : PatternRule} {c : Char} (hbody : body mark = .text [c])
    (htakes : bounds.takes mark = true) (h : KeptBelow n z v) :
    Kept n z .spaced (.rule mark ++ .rule term) EndsTerm v := by
  refine kept_behind rfl rfl (KeptAt.rule_rest ?_) htakes h.term
  show Kept n z _ (body mark) _ v
  rw [hbody]
  exact keptAt_text

/-- A condition in brackets. -/
theorem kept_bracketed (h : KeptBelow n z v) :
    Kept n z .spaced (.lit "[" ++ .rule disjunction ++ .lit "]") (fun _ => True) v :=
  kept_between rfl rfl
    (fun _ hbracket _ hc => .inr (Option.some.inj (hbracket.symm.trans hc)).symm) h.disjunction

section apart

variable (hz : SetsApart z)

include hz

/-- The forms of a term begin in different ways. -/
theorem kept_term (h : KeptBelow n z v) : Kept n z .spaced (.rule term) EndsTerm v := by
  have hne : ∀ {c d : Char}, v.head? = some d → d ≠ c → (v ++ z).head? ≠ some c :=
    fun hd hdc hc => hdc (Option.some.inj ((head?_append_of hd).symm.trans hc))
  have hnegation : ∀ {d : Char}, v.head? = some d → d ≠ '!' →
      Reads patternGrammar (n + z.length) .spaced (.rule negation ++ .rule term) (v ++ z) none :=
    fun hd hdc => .noFirst (.noRule (reads_noMark (c := '!') rfl (hne hd hdc)))
  have hoptional : ∀ {d : Char}, v.head? = some d → d ≠ '?' →
      Reads patternGrammar (n + z.length) .spaced (.rule PatternRule.optional ++ .rule term)
        (v ++ z) none :=
    fun hd hdc => .noFirst (.noRule (reads_noMark (c := '?') rfl (hne hd hdc)))
  refine KeptAt.rule_rest ?_
  refine KeptAt.alt (KeptAt.alt (KeptAt.alt (kept_marked rfl rfl h) (kept_marked rfl rfl h)
    ?optional) ((kept_bracketed h).mono fun _ _ _ => trivial) ?bracket)
    (kept_relation hz h.nodeExpr) ?relation
  case optional =>
    intro v' ps _ hfound _
    obtain ⟨⟨w, qs⟩, hfront⟩ := hfound.front
    cases hfront with
    | rule hmark _ _ => exact hnegation (hmark.head?_mark (c := '?') rfl) (by decide)
  case bracket =>
    intro v' ps _ hfound _
    have hhead := hfound.head?_mark (c := '[') rfl
    exact .altRight (hnegation hhead (by decide)) (hoptional hhead (by decide))
  case relation =>
    intro v' ps _ hfound _
    obtain ⟨d, hd, hhead⟩ := mem_signs_of_relation hfound
    have hother : ∀ {c : Char}, c ∉ signs → d ≠ c := fun hc hdc => hc (hdc ▸ hd)
    exact .altRight (.altRight (hnegation hhead (hother (by decide)))
      (hoptional hhead (hother (by decide)))) (reads_noMark (c := '[') rfl
        (hne hhead (hother (by decide))))

/-- Terms are found in the same way in what is left of a text, if they are in shorter texts. -/
theorem kept_laterTerm (h : KeptBelow n z v) (hu : u <:+ v) :
    Kept n z .spaced (.rule term) EndsTerm u := by
  rcases Nat.lt_or_eq_of_le hu.length_le with hshorter | hsame
  · exact h.term u hshorter
  · obtain rfl := hu.eq_of_length hsame
    exact kept_term hz h

theorem kept_conjunction (h : KeptBelow n z v) (hu : u <:+ v) :
    Kept n z .spaced (.rule conjunction) (EndsConjunction z) u := by
  have hitem : ∀ w, w <:+ u → Kept n z .spaced nextTerm EndsTerm w := by
    intro w hw
    refine kept_spaced_always rfl rfl ?_ fun w' ps hmark => ?_
    · refine KeptAt.opt keptAt_text fun hno _ => ?_
      cases hno with
      | noText hno =>
        refine .noText (not_prefix_append hno fun c hc hand => ?_)
        obtain rfl := List.mem_singleton.mp hand
        exact hz.head_ne (by decide) hc
    · exact kept_laterTerm hz h ((suffix_behind hmark).trans (hw.trans hu))
  refine KeptAt.rule_rest ?_
  exact kept_list (kept_laterTerm hz h hu) hitem
    (fun w x hx => ⟨endsTerm_of_nextTerm hx, settled_of_reads rfl rfl hx⟩)
    (fun w hw => ⟨hw.of_later.endsTerm, hw.of_later.settled⟩) (fun w hw => hw.endsTerm)
    fun w cs hw hcs => reads_noNextTerm (hcs ▸ hw.noConjunct)

theorem kept_disjunction (h : KeptBelow n z v) (hu : u <:+ v) :
    Kept n z .spaced (.rule disjunction) (EndsDisjunction z) u := by
  have hitem : ∀ w, w <:+ u → Kept n z .spaced nextConjunction (EndsConjunction z) w := by
    intro w hw
    refine kept_spaced_always rfl rfl keptAt_text fun w' ps hmark => ?_
    exact kept_conjunction hz h ((suffix_behind hmark).trans (hw.trans hu))
  refine KeptAt.rule_rest ?_
  exact kept_list (kept_conjunction hz h hu) hitem
    (fun w x hx => ⟨endsConjunction_of_next hx, settled_of_reads rfl rfl hx⟩)
    (fun w hw => ⟨hw.of_later.endsConjunction, hw.of_later.endsConjunction.settled⟩)
    (fun w hw => hw.endsConjunction) fun w cs hw hcs => reads_noNextConjunction (hcs ▸ hw.stops)

theorem kept_nodeExpr (h : KeptBelow n z v) :
    Kept n z .spaced (.rule nodeExpr) (EndsNode z) v := by
  refine KeptAt.rule_rest ?_
  refine kept_spaced EndsAlternatives (kept_target hz h.nodeExpr) (fun u ps htarget => ?_)
    fun u v' ps hlater hv' => ?_
  · have hlater := kept_disjunction hz h (suffix_behind htarget)
    refine KeptAt.opt (hlater.mono fun v' _ hv' => hv'.endsDisjunction)
      fun _ hend => .noRule (.noFirst (.noRule (.noFirst ?_)))
    have hstops := hend.endsDisjunction.of_later.stops
    rw [hend.endsDisjunction.of_later.endsConjunction.settled] at hstops
    exact hstops.noOpening.reads_none
  -- behind the target stands a condition, or the node has ended
  · cases hlater with
    | opt hfound =>
      obtain ⟨c, hc, hhead⟩ := mem_openings_of_disjunction hfound
      refine ⟨.of_head fun hbar => ?_, settled_of_reads rfl rfl hfound⟩
      rw [afterBlanks_of_head? hbar (by decide), hbar] at hhead
      exact absurd hc (Option.some.inj hhead ▸ by decide)
    | noOpt _ =>
      have hend := hv'.endsDisjunction.of_later.endsConjunction
      exact ⟨hend.alternatives, hend.settled⟩

theorem keptBelow (v : List Char) : KeptBelow n z v := by
  induction hlength : v.length using Nat.strongRecOn generalizing v with
  | ind m ih =>
    subst hlength
    exact ⟨fun u hu => kept_nodeExpr hz (ih _ hu u rfl),
      fun u hu => kept_disjunction hz (ih _ hu u rfl) (List.suffix_refl u),
      fun u hu => kept_term hz (ih _ hu u rfl)⟩

/-- **A target is found in the same way in front of what sets apart.** -/
theorem reads_target_before {ps : List Part} (hu : EndsAlternatives u)
    (h : Reads patternGrammar n .spaced target v (some (u, ps))) :
    Reads patternGrammar (n + z.length) .spaced target (v ++ z) (some (u ++ z, ps)) :=
  kept_target hz (keptBelow hz v).nodeExpr u ps h hu

end apart

section closing

variable {c : Char} (hc : c = ')' ∨ c = ']') {ps : List Part} (w : List Char)

include hc in
theorem setsApart_of_closing : SetsApart (c :: w) :=
  ⟨c, by rcases hc with rfl | rfl <;> decide, rfl⟩

include hc in
/-- **A condition that is a whole text is found in front of what closes a bracket.** -/
theorem reads_disjunction_before
    (h : Reads patternGrammar n .spaced (.rule disjunction) v (some ([], ps))) :
    Reads patternGrammar (n + (c :: w).length) .spaced (.rule disjunction) (v ++ c :: w)
      (some (c :: w, ps)) := by
  have hz := setsApart_of_closing hc w
  have hcloses : EndsDisjunction (c :: w) [] := fun d hd => Option.some.inj hd ▸ hc
  exact kept_disjunction hz (keptBelow hz v) (List.suffix_refl v) [] ps h hcloses

/-- **A node that is a whole text is found in parentheses.** -/
theorem reads_nodeExpr_before
    (h : Reads patternGrammar n .spaced (.rule nodeExpr) v (some ([], ps))) :
    Reads patternGrammar (n + (')' :: w).length) .spaced (.rule nodeExpr) (v ++ ')' :: w)
      (some (')' :: w, ps)) := by
  have hz := setsApart_of_closing (.inl rfl) w
  exact kept_nodeExpr hz (keptBelow hz v) [] ps h rfl

end closing

end PatternReader

end Constituency
