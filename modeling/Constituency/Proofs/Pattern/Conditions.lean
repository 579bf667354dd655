import Constituency.Proofs.Pattern.Relations

/-!
# Written conditions are read back

A part of a condition is a term. It ends with the bracket that closes it or that closes the target
of its relation, so it is read back whatever follows (`TermReadsBack`). A condition that is not a
part of another one is a disjunction, of one conjunction if it is none, and goes on where a mark and
a further term follow; so it is read back before a closing bracket and at the end of the text
(`DisjunctionReadsBack`). Lists of parts are read by one lemma for both marks (`reads_behind`).
-/

namespace Constituency

open Grammar PatternRule

namespace Condition

theorem writtenAll_eq_map (σ : Spelling) (cs : List Condition) :
    writtenAll σ cs = cs.map (written σ true) := by
  induction cs with
  | nil => rfl
  | cons c cs ih => rw [writtenAll, ih, List.map_cons]

/-- The parts behind the first, as they are written. -/
def writtenBehind (σ : Spelling) (mark : Char) (cs : List Condition) : List Char :=
  cs.flatMap fun c => ' ' :: mark :: ' ' :: c.written σ true

theorem intercalate_writtenAll (σ : Spelling) (mark : Char) (c : Condition)
    (cs : List Condition) (rest : List Char) :
    [' ', mark, ' '].intercalate (writtenAll σ (c :: cs)) ++ rest =
      c.written σ true ++ (writtenBehind σ mark cs ++ rest) := by
  rw [writtenAll, PatternReader.intercalate_cons, writtenAll_eq_map, List.flatMap_map,
    List.append_assoc]
  rfl

theorem writable_of_mem {c : Condition} {cs : List Condition}
    (h : WritableAll cs) (hc : c ∈ cs) : c.Writable := by
  induction cs with
  | nil => exact absurd hc List.not_mem_nil
  | cons d cs ih =>
    rcases List.mem_cons.mp hc with rfl | hc
    · exact h.1
    · exact ih h.2 hc

end Condition

namespace PatternReader

variable {n : Nat} {σ : Spelling} {cs rest : List Char}

/-! ## What conditions begin with -/

/-- The characters that a condition can begin with. -/
def openings : List Char := ['[', '!', '?', '<', '>', '$', '.', ',', '=']

theorem head?_term {c : Condition} (hc : c.Writable) :
    ∃ x ∈ openings, ∀ cs : List Char, (c.written σ true ++ cs).head? = some x := by
  cases c with
  | all cs => exact ⟨'[', by decide, fun cs => rfl⟩
  | any cs => exact ⟨'[', by decide, fun cs => rfl⟩
  | not c => exact ⟨'!', by decide, fun cs => rfl⟩
  | optional c => exact ⟨'?', by decide, fun cs => rfl⟩
  | related r p =>
    obtain ⟨x, hx, hhead⟩ := head?_relation hc.1
    refine ⟨x, ?_, fun cs => ?_⟩
    · exact List.mem_cons_of_mem _ (List.mem_cons_of_mem _ (List.mem_cons_of_mem _ hx))
    · rw [Condition.written, List.append_assoc]
      exact hhead _

theorem head?_parts (mark : Char) {cs : List Condition} (hlength : 2 ≤ cs.length)
    (h : Condition.WritableAll cs) :
    ∃ x ∈ openings, ∀ zs : List Char,
      ([' ', mark, ' '].intercalate (Condition.writtenAll σ cs) ++ zs).head? = some x := by
  cases cs with
  | nil => exact absurd hlength (by simp)
  | cons c cs =>
    obtain ⟨x, hx, hhead⟩ := head?_term h.1
    refine ⟨x, hx, fun zs => ?_⟩
    rw [Condition.intercalate_writtenAll]
    exact hhead _

theorem head?_disjunction {c : Condition} (hc : c.Writable) :
    ∃ x ∈ openings, ∀ cs : List Char, (c.written σ false ++ cs).head? = some x := by
  cases c with
  | all cs => exact head?_parts '&' hc.1 hc.2
  | any cs => exact head?_parts '|' hc.1 hc.2
  | not c => exact head?_term (c := .not c) hc
  | optional c => exact head?_term (c := .optional c) hc
  | related r p => exact head?_term (c := .related r p) hc

/-- Nothing is skipped in front of what begins with a character that is no blank. -/
theorem afterBlanks_of_head {xs : List Char} (hxs : (xs.all fun x => !blanks.contains x) = true)
    (h : ∃ x ∈ xs, ∀ zs : List Char, (cs ++ zs).head? = some x) (zs : List Char) :
    afterBlanks (cs ++ zs) = cs ++ zs := by
  obtain ⟨x, hx, hhead⟩ := h
  refine afterBlanks_eq fun y hy => ?_
  obtain rfl := Option.some.inj ((hhead zs).symm.trans hy)
  simpa using List.all_eq_true.mp hxs x hx

theorem afterBlanks_term {c : Condition} (hc : c.Writable) (zs : List Char) :
    afterBlanks (c.written σ true ++ zs) = c.written σ true ++ zs :=
  afterBlanks_of_head (by decide) (head?_term hc) zs

theorem afterBlanks_disjunction {c : Condition} (hc : c.Writable) (zs : List Char) :
    afterBlanks (c.written σ false ++ zs) = c.written σ false ++ zs :=
  afterBlanks_of_head (by decide) (head?_disjunction hc) zs

theorem head?_node {p : NodePattern} (hp : p.Writable) :
    ∃ c ∈ ['!', '_', '=', '~', '"', '@'], ∀ cs : List Char,
      (p.written σ ++ cs).head? = some c := by
  obtain ⟨d, v, _ | c⟩ := p
  · exact head?_description hp
  · obtain ⟨x, hx, hhead⟩ := head?_description (σ := σ) (v := v) hp.1
    refine ⟨x, hx, fun cs => ?_⟩
    rw [NodePattern.written, List.append_assoc]
    exact hhead _

theorem afterBlanks_node {p : NodePattern} (hp : p.Writable) (zs : List Char) :
    afterBlanks (p.written σ ++ zs) = p.written σ ++ zs :=
  afterBlanks_of_head (by decide) (head?_node hp) zs

/-! ## Where conditions end -/

/-- A text that no condition goes on into: it is empty or closes a bracket. -/
def Closes (cs : List Char) : Prop := ∀ c ∈ cs.head?, c = ')' ∨ c = ']'

theorem Closes.afterBlanks (h : Closes rest) : afterBlanks rest = rest :=
  afterBlanks_eq fun c hc => by rcases h c hc with rfl | rfl <;> decide

/-- A text that no condition begins with. -/
def NoOpening (cs : List Char) : Prop := ∀ c ∈ cs.head?, c ∉ openings

/-- A text does not begin with a word if its first character begins no such word. -/
theorem not_begins {xs : List Char} (h : ∀ c ∈ cs.head?, c ∉ xs) {c : Char} (hc : c ∈ xs)
    {w : List Char} (hw : w.head? = some c) : ¬ w <+: cs := by
  rintro ⟨zs, rfl⟩
  obtain ⟨w, rfl⟩ := List.head?_eq_some_iff.mp hw
  exact h c rfl hc

/-- The characters that a relation can begin with. -/
def signs : List Char := ['<', '>', '$', '.', ',', '=']

theorem reads_noRelation (h : ∀ c ∈ cs.head?, c ∉ signs) :
    Reads patternGrammar n .spaced (.rule relation) cs none := by
  have hsign : ∀ {k : Kind}, Reads patternGrammar n k (.lit "<" ||| .lit ">") cs none :=
    .altRight (.noText (not_begins h (c := '<') (by decide) rfl))
      (.noText (not_begins h (c := '>') (by decide) rfl))
  have hchain : Reads patternGrammar n .tight (.rule chainOp) cs none := by
    refine .noRule (.noFirst (.noFirst (.noFirst (.noRule (reads_noneOf fun w hw => ?_)))))
    rcases List.mem_cons.mp hw with rfl | hw
    · exact not_begins h (c := '<') (by decide) (by decide)
    · obtain rfl := List.mem_singleton.mp hw
      exact not_begins h (c := '>') (by decide) (by decide)
  have hposition : Reads patternGrammar n .tight (.rule nthOp) cs none :=
    .noRule (.noFirst (.noFirst hsign))
  have hsimple : Reads patternGrammar n .tight (.rule simpleOp) cs none := by
    refine .noRule (reads_noneOf fun w hw => ?_)
    obtain ⟨c, hc, hhead⟩ := List.any_eq_true.mp (head?_token w hw)
    exact not_begins h hc (beq_iff_eq.mp hhead)
  exact .noRule (.noFirst (.noRule (.altRight (.altRight hchain hposition) hsimple)))

theorem NoOpening.reads_none (h : NoOpening cs) :
    Reads patternGrammar n .spaced (.rule term) cs none := by
  have hmark : ∀ {k : Kind} {c : Char}, c ∈ openings →
      Reads patternGrammar n k (.text [c]) cs none :=
    fun hc => .noText (not_begins h hc rfl)
  refine .noRule (.altRight (.altRight (.altRight ?_ ?_) ?_)
    (reads_noRelation fun c hc hsign => ?_))
  · exact .noFirst (.noRule (hmark (c := '!') (by decide)))
  · exact .noFirst (.noRule (hmark (c := '?') (by decide)))
  · exact .noFirst (.noFirst (hmark (c := '[') (by decide)))
  · exact h c hc (List.mem_of_mem_drop (i := 3) hsign)

/-- A text that no conjunction goes on into: no blanks are skipped before it, and no conjunct
follows. -/
structure NoConjunct (cs : List Char) : Prop where
  afterBlanks : afterBlanks cs = cs
  noOpening : NoOpening cs
  no_and : cs.head? ≠ some '&'

theorem NoConjunct.reads_none (h : NoConjunct cs) :
    Reads patternGrammar n .spaced (.opt (.lit "&") ++ .rule term) cs none := by
  refine .noSecond (.noOpt (reads_noText h.no_and)) (reads_blanks cs) ?_
  rw [h.afterBlanks]
  exact h.noOpening.reads_none

/-- A text that no condition goes on into. -/
structure Stops (cs : List Char) : Prop extends NoConjunct cs where
  no_bar : cs.head? ≠ some '|'

theorem Stops.reads_none (h : Stops rest) :
    Reads patternGrammar n .spaced (.lit "|" ++ .rule conjunction) rest none :=
  .noFirst (reads_noText h.no_bar)

/-- The end of a text or a bracket that is closed. -/
theorem Closes.stops (h : Closes rest) : Stops rest where
  afterBlanks := h.afterBlanks
  noOpening c hc := by rcases h c hc with rfl | rfl <;> decide
  no_and hhead := by rcases h '&' hhead with heq | heq <;> exact absurd heq (by decide)
  no_bar hhead := by rcases h '|' hhead with heq | heq <;> exact absurd heq (by decide)

/-! ## Parts of parses -/

/-- A part for a pattern, as it is read and as its names are mentioned. -/
structure IsNode (σ : Spelling) (q : Part) (p : NodePattern) : Prop where
  read : ∀ s, nodePattern s q = .ok (p.rename (s.numbering σ))
  keys : ∀ b, (mentions b q).map Mention.key = (p.occurrences b).map (Occurrence.key σ)

/-- A part for a condition, as it is read and as its names are mentioned. -/
structure IsCondition (σ : Spelling) (q : Part) (c : Condition) : Prop where
  read : ∀ s, condition s q = .ok (c.rename (s.numbering σ))
  keys : ∀ b, (mentions b q).map Mention.key = (c.occurrences b).map (Occurrence.key σ)

/-- Parts for conditions, as they are read and as their names are mentioned. -/
structure AreConditions (σ : Spelling) (qs : List Part) (cs : List Condition) : Prop where
  read : ∀ s, conditions s qs = .ok (Condition.renameAll (s.numbering σ) cs)
  keys : ∀ b, (mentionsAll b qs).map Mention.key =
    (Condition.occurrencesAll b cs).map (Occurrence.key σ)

theorem AreConditions.nil : AreConditions σ [] [] where
  read _ := rfl
  keys _ := rfl

theorem AreConditions.cons {q : Part} {qs : List Part} {c : Condition} {cs : List Condition}
    (h : IsCondition σ q c) (hs : AreConditions σ qs cs) :
    AreConditions σ (q :: qs) (c :: cs) where
  read s := by
    rw [conditions, h.read, hs.read]
    rfl
  keys b := by
    rw [mentionsAll, Condition.occurrencesAll, List.map_append, List.map_append, h.keys, hs.keys]

/-- The ways of joining conditions: the rule, the mark between them, and what becomes of them. -/
inductive IsJoin : PatternRule → Char → (List Condition → Condition) → Prop
  | all : IsJoin conjunction '&' .all
  | any : IsJoin disjunction '|' .any

theorem IsJoin.written {r : PatternRule} {x : Char} {f : List Condition → Condition}
    (h : IsJoin r x f) (c : Condition) (cs : List Condition) (rest : List Char) :
    (f (c :: cs)).written σ false ++ rest =
      c.written σ true ++ (Condition.writtenBehind σ x cs ++ rest) := by
  cases h <;> exact Condition.intercalate_writtenAll σ _ c cs rest

/-- Several conditions under the rule that joins them. -/
theorem AreConditions.joined {qs : List Part} {cs : List Condition} {r : PatternRule} {x : Char}
    {f : List Condition → Condition} (h : AreConditions σ qs cs) (hjoin : IsJoin r x f)
    (hlength : 2 ≤ cs.length) (i : Nat) (w : List Char) :
    IsCondition σ (.node r i w qs) (f cs) where
  read s := by
    match cs, hlength with
    | c :: c' :: cs, _ =>
      cases hjoin
      all_goals
        rw [condition, h.read]
        rfl
  keys b := by
    have htransparent : isTransparent r = true := by cases hjoin <;> rfl
    rw [mentions_of_isTransparent htransparent, ← mentionsAll_eq_flatMap, h.keys]
    cases hjoin <;> rfl

/-- A conjunction or disjunction of one condition is that condition. -/
theorem IsCondition.only {q : Part} {c : Condition} {r : PatternRule} (h : IsCondition σ q c)
    (hr : r = conjunction ∨ r = disjunction) (i : Nat) (w : List Char) :
    IsCondition σ (.node r i w [q]) c where
  read s := by
    rcases hr with rfl | rfl
    all_goals
      rw [condition, conditions, h.read]
      rfl
  keys b := by
    have htransparent : isTransparent r = true := by rcases hr with rfl | rfl <;> rfl
    rw [mentions_of_isTransparent htransparent, List.flatMap_singleton, h.keys]

/-- A term that is a relation, or a disjunction in brackets. -/
theorem IsCondition.term {q : Part} {c : Condition} (h : IsCondition σ q c)
    (hq : q.rule = relation ∨ q.rule = disjunction) (i : Nat) (w : List Char) :
    IsCondition σ (.node term i w [q]) c where
  read s := by
    rw [← h.read s]
    obtain ⟨r, j, v, qs⟩ := q
    rcases hq with rfl | rfl
    all_goals rfl
  keys b := by
    rw [← h.keys b]
    obtain ⟨r, j, v, qs⟩ := q
    rcases hq with rfl | rfl
    all_goals
      show (mentions b _ ++ []).map Mention.key = _
      rw [List.append_nil]

/-- The marks in front of a term: the rule, the character, and what becomes of the condition. -/
inductive IsMark : PatternRule → Char → (Condition → Condition) → Prop
  | negation : IsMark negation '!' .not
  | optional : IsMark PatternRule.optional '?' .optional

/-- A term behind a mark. -/
theorem IsCondition.marked {q : Part} {c : Condition} {mark : PatternRule} {x : Char}
    {f : Condition → Condition} (h : IsCondition σ q c) (hmark : IsMark mark x f) (i j : Nat)
    (v w : List Char) :
    IsCondition σ (.node PatternRule.term i w [.node mark j v [], q]) (f c) where
  read s := by
    cases hmark
    all_goals
      rw [condition, h.read]
      rfl
  keys b := by
    cases hmark
    all_goals
      show (mentions _ q ++ []).map Mention.key = _
      rw [List.append_nil, h.keys]
      rfl

theorem IsRelation.related {op q : Part} {r : Relation} {p : NodePattern} (h : IsRelation σ op r)
    (hq : IsNode σ q p) (i : Nat) (w : List Char) :
    IsCondition σ (.node relation i w [op, q]) (.related r p) where
  read s := by
    rw [condition]
    exact bind_eq_ok.mpr ⟨_, h.read s, bind_eq_ok.mpr ⟨_, hq.read s, rfl⟩⟩
  keys b := by
    rw [mentions_of_isTransparent rfl, List.flatMap_cons, List.flatMap_singleton, List.map_append,
      h.keys, hq.keys, Condition.occurrences, List.map_append]

/-! ## Lists of parts -/

/-- A part of a condition is read back, whatever follows. -/
def TermReadsBack (n : Nat) (σ : Spelling) (c : Condition) : Prop :=
  ∀ rest, (c.written σ true ++ rest).length ≤ n →
    ∃ q, Reads patternGrammar n .spaced (.rule term) (c.written σ true ++ rest)
      (some (rest, [q])) ∧ IsCondition σ q c

/-- A condition is read back before what no condition goes on into. -/
def DisjunctionReadsBack (n : Nat) (σ : Spelling) (c : Condition) : Prop :=
  ∀ rest, Closes rest → (c.written σ false ++ rest).length ≤ n →
    ∃ q, Reads patternGrammar n .spaced (.rule disjunction) (c.written σ false ++ rest)
      (some (rest, [q])) ∧ q.rule = disjunction ∧ IsCondition σ q c

section behind

variable {mark : Char} {item : Expr PatternRule}

/-- Whether a part of a condition is read behind its mark, with the blanks behind it or without
them. -/
def ReadsMarked (n : Nat) (σ : Spelling) (mark : Char) (item : Expr PatternRule)
    (rest : List Char) (c : Condition) : Prop :=
  ∀ later : List Condition, ∀ more, more = Condition.writtenBehind σ mark later ++ rest →
    (mark :: ' ' :: (c.written σ true ++ more)).length ≤ n →
    ∃ more' q, Reads patternGrammar n .spaced item (mark :: ' ' :: (c.written σ true ++ more))
      (some (more', [q])) ∧ (more' = more ∨ more' = afterBlanks more) ∧ IsCondition σ q c

/-- **The parts behind the first are read back**, each behind its mark. -/
theorem reads_behind (hmark : blanks.contains mark = false) (hrest : Closes rest)
    (hnone : Reads patternGrammar n .spaced item rest none) {cs : List Condition}
    (h : ∀ c ∈ cs, ReadsMarked n σ mark item rest c)
    (hn : (Condition.writtenBehind σ mark cs ++ rest).length ≤ n) :
    ∃ qs, Reads patternGrammar n .spaced (.many item)
      (afterBlanks (Condition.writtenBehind σ mark cs ++ rest)) (some (rest, qs)) ∧
      AreConditions σ qs cs := by
  -- in front of a part stand a blank, its mark and another blank
  have htext : ∀ c cs, Condition.writtenBehind σ mark (c :: cs) ++ rest =
      ' ' :: mark :: ' ' :: (c.written σ true ++ (Condition.writtenBehind σ mark cs ++ rest)) := by
    intro c cs
    rw [Condition.writtenBehind, List.flatMap_cons, List.append_assoc]
    rfl
  have hmarked : ∀ c cs, afterBlanks (Condition.writtenBehind σ mark (c :: cs) ++ rest) =
      mark :: ' ' :: (c.written σ true ++ (Condition.writtenBehind σ mark cs ++ rest)) := by
    intro c cs
    rw [htext]
    show afterBlanks (mark :: _) = mark :: _
    exact afterBlanks_eq fun x hx => Option.some.inj hx ▸ hmark
  induction cs with
  | nil =>
    refine ⟨[], ?_, .nil⟩
    rw [Condition.writtenBehind, List.flatMap_nil, List.nil_append, hrest.afterBlanks]
    exact .manyNone hnone
  | cons c cs ih =>
    obtain ⟨hc, hcs⟩ := List.forall_mem_cons.mp h
    rw [htext] at hn
    obtain ⟨more, q, hfirst, hmore, hq⟩ := hc cs _ rfl (Nat.le_of_succ_le hn)
    obtain ⟨qs, hmany, hqs⟩ :=
      ih hcs (length_later (w := ' ' :: mark :: ' ' :: c.written σ true) hn)
    have hblanks : afterBlanks more = afterBlanks (Condition.writtenBehind σ mark cs ++ rest) := by
      rcases hmore with rfl | rfl
      · rfl
      · exact afterBlanks_idem _
    rw [hmarked]
    -- what the repetition reads of the later parts begins where the blanks behind this one end
    rcases hfirst.manyGoesOn (hblanks ▸ reads_blanks more) hmany with hall | ⟨hend, rfl, hlast⟩
    · exact ⟨q :: qs, hall, .cons hq hqs⟩
    -- the list ends before the blanks, so it was the last part
    · cases cs with
      | nil =>
        have hstays : more = rest := by
          rcases hmore with rfl | rfl
          · rfl
          · exact hrest.afterBlanks
        exact ⟨[q], hstays ▸ hlast, .cons hq .nil⟩
      | cons c' cs =>
        have hlength := congrArg List.length (hend.trans (hmarked c' cs))
        simp only [List.length_cons, List.length_append] at hlength
        omega

theorem conjunct_readsMarked {c : Condition} (hc : c.Writable) (h : TermReadsBack n σ c) :
    ReadsMarked n σ '&' (.opt (.lit "&") ++ .rule term) rest c := by
  rintro later more - hn
  obtain ⟨q, hterm, hq⟩ := h more (length_later (w := ['&', ' ']) hn)
  exact ⟨more, q, reads_spaced (.opt (.text rfl)) (afterBlanks_term hc more) hterm, .inl rfl, hq⟩

/-- A term that stands alone is read as a conjunction, up to what follows behind blanks. -/
theorem reads_alone {c : Condition} {q : Part} {cs more : List Char}
    (h : Reads patternGrammar n .spaced (.rule term) cs (some (more, [q])))
    (hq : IsCondition σ q c) (hmore : NoConjunct (afterBlanks more)) (hn : cs.length ≤ n) :
    ∃ q', Reads patternGrammar n .spaced (.rule conjunction) cs
      (some (afterBlanks more, [q'])) ∧ IsCondition σ q' c := by
  have hbody : Reads patternGrammar n .spaced (body conjunction) cs
      (some (afterBlanks more, [q])) := reads_spaced h rfl (.manyNone hmore.reads_none)
  obtain ⟨i, w, hrule⟩ := reads_part (k := .spaced) (r := conjunction) (by decide) hbody hn
  exact ⟨_, hrule, hq.only (.inl rfl) i w⟩

theorem noConjunct_behind (hrest : Stops rest) (cs : List Condition) :
    NoConjunct (afterBlanks (Condition.writtenBehind σ '|' cs ++ rest)) := by
  cases cs with
  | nil =>
    rw [Condition.writtenBehind, List.flatMap_nil, List.nil_append, hrest.afterBlanks]
    exact hrest.toNoConjunct
  | cons c cs =>
    have hbar : ∀ x ∈ (afterBlanks (Condition.writtenBehind σ '|' (c :: cs) ++ rest)).head?,
        x = '|' := fun x hx => (Option.some.inj hx).symm
    refine ⟨afterBlanks_idem _, fun x hx => ?_, fun hand => absurd (hbar _ hand) (by decide)⟩
    rw [hbar x hx]
    decide

theorem disjunct_readsMarked {c : Condition} (hc : c.Writable) (h : TermReadsBack n σ c)
    (hrest : Closes rest) : ReadsMarked n σ '|' (.lit "|" ++ .rule conjunction) rest c := by
  rintro later more rfl hn
  have hlength := length_later (w := ['|', ' ']) hn
  obtain ⟨q, hterm, hq⟩ := h _ hlength
  obtain ⟨q, halone, hq⟩ := reads_alone hterm hq (noConjunct_behind hrest.stops later) hlength
  exact ⟨_, q, reads_spaced (.text rfl) (afterBlanks_term hc _) halone, .inr rfl, hq⟩

end behind

/-! ## Disjunctions and terms -/

/-- A conjunction is read as a disjunction of one part. -/
theorem reads_undivided {c : Condition} {q : Part} {cs : List Char}
    (h : Reads patternGrammar n .spaced (.rule conjunction) cs (some (rest, [q])))
    (hq : IsCondition σ q c) (hrest : Stops rest) (hn : cs.length ≤ n) :
    ∃ q', Reads patternGrammar n .spaced (.rule disjunction) cs (some (rest, [q'])) ∧
      q'.rule = disjunction ∧ IsCondition σ q' c := by
  have hbody : Reads patternGrammar n .spaced (body disjunction) cs (some (rest, [q])) :=
    reads_spaced h hrest.afterBlanks (.manyNone hrest.reads_none)
  obtain ⟨i, w, hrule⟩ := reads_part (k := .spaced) (r := disjunction) (by decide) hbody hn
  exact ⟨_, hrule, rfl, hq.only (.inr rfl) i w⟩

/-- A term that stands alone is read as a disjunction. -/
theorem reads_single {c : Condition} {q : Part} {cs : List Char}
    (h : Reads patternGrammar n .spaced (.rule term) cs (some (rest, [q])))
    (hq : IsCondition σ q c) (hrest : Stops rest) (hn : cs.length ≤ n) :
    ∃ q', Reads patternGrammar n .spaced (.rule disjunction) cs (some (rest, [q'])) ∧
      q'.rule = disjunction ∧ IsCondition σ q' c := by
  have hblanks := hrest.afterBlanks
  obtain ⟨q', halone, hq'⟩ := reads_alone h hq (hblanks.symm ▸ hrest.toNoConjunct) hn
  rw [hblanks] at halone
  exact reads_undivided halone hq' hrest hn

theorem disjunction_of_term {c : Condition} (hwritten : c.written σ false = c.written σ true)
    (h : TermReadsBack n σ c) : DisjunctionReadsBack n σ c := by
  intro rest hrest hn
  rw [hwritten] at hn ⊢
  obtain ⟨q, hterm, hq⟩ := h rest hn
  exact reads_single hterm hq hrest.stops hn

/-- **Several conditions are read as what joins them**, if the first is read up to blanks and every
other one behind its mark. -/
theorem reads_joined {r part : PatternRule} {mark : Char} {item : Expr PatternRule}
    {f : List Condition → Condition} {c : Condition} {cs : List Condition} {q : Part}
    {more : List Char} (hjoin : IsJoin r mark f) (hbody : body r = .rule part ++ .many item)
    (hlength : 2 ≤ (c :: cs).length) (hrest : Closes rest)
    (hfirst : Reads patternGrammar n .spaced (.rule part) ((f (c :: cs)).written σ false ++ rest)
      (some (more, [q]))) (hq : IsCondition σ q c)
    (hmore : afterBlanks more = afterBlanks (Condition.writtenBehind σ mark cs ++ rest))
    (hcs : ∀ d ∈ cs, ReadsMarked n σ mark item rest d)
    (hnone : Reads patternGrammar n .spaced item rest none)
    (hn : ((f (c :: cs)).written σ false ++ rest).length ≤ n) :
    ∃ q', Reads patternGrammar n .spaced (.rule r) ((f (c :: cs)).written σ false ++ rest)
      (some (rest, [q'])) ∧ q'.rule = r ∧ IsCondition σ q' (f (c :: cs)) := by
  have hmark : blanks.contains mark = false := by cases hjoin <;> decide
  have hkind : (Kind.spaced.inner (patternGrammar.kind r)) = .spaced := by cases hjoin <;> rfl
  have hn' := hn
  rw [hjoin.written] at hn'
  obtain ⟨qs, hmany, hqs⟩ := reads_behind hmark hrest hnone hcs (length_later hn')
  have hall : Reads patternGrammar n (Kind.spaced.inner (patternGrammar.kind r)) (body r)
      ((f (c :: cs)).written σ false ++ rest) (some (rest, q :: qs)) := by
    rw [hkind, hbody]
    exact reads_spaced hfirst hmore hmany
  obtain ⟨i, w, hrule⟩ := reads_part (k := .spaced) (r := r) (by decide) hall hn
  exact ⟨_, hrule, rfl, (AreConditions.cons hq hqs).joined hjoin hlength i w⟩

theorem disjunction_of_all {cs : List Condition} (hcs : (Condition.all cs).Writable)
    (h : ∀ c ∈ cs, TermReadsBack n σ c) : DisjunctionReadsBack n σ (.all cs) := by
  intro rest hrest hn
  obtain ⟨hlength, hwritable⟩ := hcs
  obtain _ | ⟨c, cs⟩ := cs
  · exact absurd hlength (by simp)
  have htext := IsJoin.all.written (σ := σ) c cs rest
  obtain ⟨hc, hcs⟩ := List.forall_mem_cons.mp h
  obtain ⟨q, hterm, hq⟩ := hc _ (htext ▸ hn)
  obtain ⟨q', hrule, -, hq'⟩ := reads_joined .all rfl hlength hrest (htext ▸ hterm) hq rfl
    (fun d hd => conjunct_readsMarked (Condition.writable_of_mem hwritable.2 hd) (hcs d hd))
    hrest.stops.toNoConjunct.reads_none hn
  exact reads_undivided hrule hq' hrest.stops hn

theorem disjunction_of_any {cs : List Condition} (hcs : (Condition.any cs).Writable)
    (h : ∀ c ∈ cs, TermReadsBack n σ c) : DisjunctionReadsBack n σ (.any cs) := by
  intro rest hrest hn
  obtain ⟨hlength, hwritable⟩ := hcs
  obtain _ | ⟨c, cs⟩ := cs
  · exact absurd hlength (by simp)
  have htext := IsJoin.any.written (σ := σ) c cs rest
  obtain ⟨hc, hcs⟩ := List.forall_mem_cons.mp h
  -- each part is a conjunction by itself and has taken the blanks before the next mark
  obtain ⟨q, hterm, hq⟩ := hc _ (htext ▸ hn)
  obtain ⟨q, halone, hq⟩ :=
    reads_alone hterm hq (noConjunct_behind hrest.stops cs) (htext ▸ hn)
  exact reads_joined .any rfl hlength hrest (htext ▸ halone) hq (afterBlanks_idem _)
    (fun d hd => disjunct_readsMarked (Condition.writable_of_mem hwritable.2 hd) (hcs d hd) hrest)
    hrest.stops.reads_none hn

/-- A condition in brackets is a term. -/
theorem term_of_disjunction {c : Condition} (hc : c.Writable)
    (hwritten : c.written σ true = '[' :: (c.written σ false ++ [']']))
    (h : DisjunctionReadsBack n σ c) : TermReadsBack n σ c := by
  intro rest hn
  have htext : c.written σ true ++ rest = '[' :: (c.written σ false ++ ']' :: rest) := by
    rw [hwritten, List.cons_append, List.append_assoc]
    rfl
  rw [htext] at hn ⊢
  obtain ⟨q, hdisjunction, hrule, hq⟩ := h (']' :: rest)
    (fun x hx => .inr (Option.some.inj hx).symm) (Nat.le_of_succ_le hn)
  have hbody : Reads patternGrammar n .spaced (body term)
      ('[' :: (c.written σ false ++ ']' :: rest)) (some (rest, [q])) := by
    -- neither a negation nor an optional term
    refine .altLeft (.altRight (.altRight ?_ ?_) ?_)
    · exact .noFirst (.noRule (reads_noText (c := '!') (by simp)))
    · exact .noFirst (.noRule (reads_noText (c := '?') (by simp)))
    · exact reads_spaced (reads_spaced (.text rfl) (afterBlanks_disjunction hc _) hdisjunction)
        (afterBlanks_eq (by simp [blanks])) (.text rfl)
  obtain ⟨i, w, hterm⟩ := reads_part (k := .spaced) (r := term) (by decide) hbody hn
  exact ⟨_, hterm, hq.term (.inr hrule) i w⟩

/-- **A term behind a mark is read back**, where the mark comes before the other forms of terms. -/
theorem term_of_marked {c : Condition} {mark : PatternRule} {x : Char} {f : Condition → Condition}
    (hmark : IsMark mark x f) (hwritten : (f c).written σ true = x :: c.written σ true)
    (hc : c.Writable) (h : TermReadsBack n σ c) : TermReadsBack n σ (f c) := by
  intro rest hn
  rw [hwritten] at hn ⊢
  obtain ⟨q, hpart, hq⟩ := h rest (Nat.le_of_succ_le hn)
  have hcharacter : Reads patternGrammar n (Kind.spaced.inner (patternGrammar.kind mark))
      (body mark) ([x] ++ (c.written σ true ++ rest)) (some (c.written σ true ++ rest, [])) := by
    cases hmark <;> exact .text rfl
  obtain ⟨j, hfirst⟩ := reads_node (k := .spaced) (r := mark) (by decide) hcharacter hn
  have hmarked : Reads patternGrammar n .spaced (.rule mark ++ .rule term)
      (x :: (c.written σ true ++ rest)) (some (rest, [.node mark j [x] [], q])) :=
    reads_spaced hfirst (afterBlanks_term hc _) hpart
  have hbody : Reads patternGrammar n .spaced (body term) (x :: (c.written σ true ++ rest))
      (some (rest, [.node mark j [x] [], q])) := by
    cases hmark
    case negation => exact .altLeft (.altLeft (.altLeft hmarked))
    case optional =>
      have hno : Reads patternGrammar n .spaced (.rule negation ++ .rule term)
          ('?' :: (c.written σ true ++ rest)) none :=
        .noFirst (.noRule (reads_noText (c := '!') (by simp)))
      exact .altLeft (.altLeft (.altRight hno hmarked))
  obtain ⟨i, w, hterm⟩ := reads_part (k := .spaced) (r := term) (by decide) hbody hn
  exact ⟨_, hterm, hq.marked hmark i j _ w⟩

/-- A pattern is read back at the end of the text and before a closing parenthesis. -/
def NodeReadsBack (n : Nat) (σ : Spelling) (p : NodePattern) : Prop :=
  ∀ rest : List Char, (∀ c ∈ rest.head?, c = ')') → (p.written σ ++ rest).length ≤ n →
    ∃ q, Reads patternGrammar n .spaced (.rule nodeExpr) (p.written σ ++ rest)
      (some (rest, [q])) ∧ IsNode σ q p

/-- A relation and its target, behind blanks, are a term. -/
theorem reads_related {cs more later : List Char} {op q : Part} {r : Relation} {p : NodePattern}
    {x : Char} (hop : Reads patternGrammar n .spaced (.rule relationOp) cs (some (more, [op])))
    (hr : IsRelation σ op r) (hhead : cs.head? = some x)
    (hx : x ∈ ['<', '>', '$', '.', ',', '=']) (hmore : afterBlanks more = later)
    (htarget : Reads patternGrammar n .spaced target later (some (rest, [q])))
    (hq : IsNode σ q p) (hn : cs.length ≤ n) :
    ∃ q', Reads patternGrammar n .spaced (.rule term) cs (some (rest, [q'])) ∧
      IsCondition σ q' (.related r p) := by
  have hrelation : Reads patternGrammar n .spaced (body relation) cs (some (rest, [op, q])) :=
    reads_spaced hop hmore htarget
  obtain ⟨i, w, hpart⟩ := reads_part (k := .spaced) (r := relation) (by decide) hrelation hn
  -- a relation begins with none of the marks that the other terms begin with
  have hno : ∀ c, c ∉ ['<', '>', '$', '.', ',', '='] →
      Reads patternGrammar n .spaced (.text [c]) cs none := by
    intro c hc
    refine reads_noText fun heq => hc ?_
    rw [← Option.some.inj (hhead.symm.trans heq)]
    exact hx
  have hbody : Reads patternGrammar n .spaced (body term) cs
      (some (rest, [.node relation i w [op, q]])) := by
    refine .altRight (.altRight (.altRight ?_ ?_) ?_) hpart
    · exact .noFirst (.noRule (hno '!' (by decide)))
    · exact .noFirst (.noRule (hno '?' (by decide)))
    · exact .noFirst (.noFirst (hno '[' (by decide)))
  obtain ⟨j, v, hterm⟩ := reads_part (k := .spaced) (r := term) (by decide) hbody hn
  exact ⟨_, hterm, (hr.related hq i w).term (.inl rfl) j v⟩

theorem term_of_related {r : Relation} {p : NodePattern} (hr : r.Writable) (hp : p.Writable)
    (hname : ∀ u ∈ r.references, Text.isName (σ.name u).toList = true)
    (h : NodeReadsBack n σ p) : TermReadsBack n σ (.related r p) := by
  intro rest hn
  have htext : (Condition.related r p).written σ true ++ rest =
      r.written σ ++ ' ' :: '(' :: (p.written σ ++ ')' :: rest) := by
    rw [Condition.written, List.append_assoc, List.cons_append, List.cons_append,
      List.append_assoc]
    rfl
  rw [htext] at hn ⊢
  obtain ⟨op, hop, hrelation⟩ := reads_relationOp hr hname hn
  obtain ⟨q, hnode, hq⟩ := h (')' :: rest) (fun x hx => (Option.some.inj hx).symm)
    (length_later (w := [' ', '(']) (length_later hn))
  have htarget : Reads patternGrammar n .spaced target ('(' :: (p.written σ ++ ')' :: rest))
      (some (rest, [q])) :=
    .altLeft (reads_spaced (reads_spaced (.text rfl) (afterBlanks_node hp _) hnode)
      (afterBlanks_eq (by simp [blanks])) (.text rfl))
  obtain ⟨x, hx, hhead⟩ := head?_relation hr
  exact reads_related hop hrelation (hhead _) hx rfl htarget hq hn

end PatternReader

end Constituency
