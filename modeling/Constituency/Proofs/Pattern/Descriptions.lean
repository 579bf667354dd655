import Constituency.Proofs.Pattern.Tokens

/-!
# Written descriptions are read back

A description contains no blanks outside quotation marks, so it is over where a blank or a closing
parenthesis follows (`EndsDescription`). Before that a colon or an equals sign ends the label test
(`EndsTest`).

How names are numbered is not known before the whole text is parsed. So what a part is read as is
said for all numberings, and beside it which names the part mentions (`IsDescription`).
-/

namespace Constituency

open Grammar PatternRule

/-- What an occurrence of a variable is mentioned as: its name, whether it captures a node, and
whether it is negated. -/
def Occurrence.key (σ : Spelling) (o : Occurrence) : String × Bool × Bool :=
  (σ.name o.var, o.captures, o.negated)

namespace PatternReader

/-- What a name is mentioned for, the place apart. -/
def Mention.key (m : Mention) : String × Bool × Bool := (m.name, m.captures, m.negated)

/-- The variables that the names of a spelling are read as. -/
def Source.numbering (s : Source) (σ : Spelling) (v : VarId) : VarId := s.variable (σ.name v)

variable {n : Nat} {σ : Spelling} {cs rest : List Char}

theorem mentionsAll_append (negated : Bool) (ps qs : List Part) :
    mentionsAll negated (ps ++ qs) = mentionsAll negated ps ++ mentionsAll negated qs := by
  rw [mentionsAll_eq_flatMap, List.flatMap_append, mentionsAll_eq_flatMap, mentionsAll_eq_flatMap]

/-! ## Label tests -/

theorem reads_atom {a : Atom} (ha : a.Writable) (hn : (a.written ++ rest).length ≤ n) :
    ∃ p, Reads patternGrammar n .tight (.rule PatternRule.atom) (a.written ++ rest)
      (some (rest, [p])) ∧ (∀ s, atom s p = .ok a) ∧ ∀ negated, mentions negated p = [] := by
  cases a with
  | regex r => exact absurd ha id
  | literal l =>
    obtain ⟨i, j, hquoted⟩ := reads_quoted l.toList hn
    have hregex : Reads patternGrammar n .tight (.rule regex)
        (Text.quote l.toList ++ rest) none :=
      .noRule (.noFirst (.noFirst (reads_noText (c := '/') (by simp [Text.quote]))))
    have hcategory : Reads patternGrammar n .tight (.rule category)
        (Text.quote l.toList ++ rest) none :=
      .noRule (.noFirst (reads_noText (c := '@') (by simp [Text.quote])))
    have hbody : Reads patternGrammar n .tight (body PatternRule.atom) (Text.quote l.toList ++ rest)
        (some (rest, _)) := .altLeft (.altRight (.altRight hregex hcategory) hquoted)
    obtain ⟨m, hatom⟩ := reads_node (k := .tight) (r := PatternRule.atom) (by decide) hbody hn
    refine ⟨_, hatom, fun s => ?_, fun negated => rfl⟩
    show Except.ok (Atom.literal (String.ofList (Text.unquote (Text.escape l.toList)))) = _
    rw [unquote_escape, String.ofList_toList]
  | category l =>
    have hlength : (Text.quote l.toList ++ rest).length ≤ n := Nat.le_of_succ_le hn
    obtain ⟨i, j, hquoted⟩ := reads_quoted l.toList hlength
    have hregex : Reads patternGrammar n .tight (.rule regex)
        ('@' :: Text.quote l.toList ++ rest) none :=
      .noRule (.noFirst (.noFirst (reads_noText (c := '/') (by simp))))
    have hinside : Reads patternGrammar n .tight (body category)
        ('@' :: Text.quote l.toList ++ rest) (some (rest, _)) :=
      .next (by decide) (.text rfl) (.altLeft hquoted)
    obtain ⟨m, hcategory⟩ := reads_node (k := .tight) (r := category) (by decide) hinside hn
    have hbody : Reads patternGrammar n .tight (body PatternRule.atom)
        ('@' :: Text.quote l.toList ++ rest) (some (rest, _)) :=
      .altLeft (.altLeft (.altRight hregex hcategory))
    obtain ⟨m', hatom⟩ := reads_node (k := .tight) (r := PatternRule.atom) (by decide) hbody hn
    refine ⟨_, hatom, fun s => ?_, fun negated => rfl⟩
    show Except.ok (Atom.category (String.ofList (Text.unquote (Text.escape l.toList)))) = _
    rw [unquote_escape, String.ofList_toList]

theorem intercalate_cons {α : Type} (sep w : List α) (ws : List (List α)) :
    sep.intercalate (w :: ws) = w ++ ws.flatMap (sep ++ ·) := by
  induction ws generalizing w with
  | nil => rw [List.intercalate_singleton, List.flatMap_nil, List.append_nil]
  | cons v ws ih =>
    rw [List.intercalate_cons_cons, ih, List.flatMap_cons, List.append_assoc, List.append_assoc]

theorem reads_moreAtoms {atoms : List Atom} (h : ∀ a ∈ atoms, a.Writable)
    (hrest : rest.head? ≠ some '|')
    (hn : ((atoms.flatMap fun a => ['|'] ++ a.written) ++ rest).length ≤ n) :
    ∃ ps, Reads patternGrammar n .tight (.many (.lit "|" ++ .rule PatternRule.atom))
        ((atoms.flatMap fun a => ['|'] ++ a.written) ++ rest) (some (rest, ps)) ∧
      (∀ s, ps.mapM (atom s) = .ok atoms) ∧ ∀ negated, mentionsAll negated ps = [] := by
  induction atoms with
  | nil =>
    exact ⟨[], .manyNone (.noFirst (reads_noText hrest)), fun s => rfl, fun _ => rfl⟩
  | cons a atoms ih =>
    obtain ⟨ha, hatoms⟩ := List.forall_mem_cons.mp h
    rw [List.flatMap_cons, List.append_assoc, List.append_assoc] at hn ⊢
    obtain ⟨p, hatom, hread, hmentions⟩ := reads_atom ha (length_later hn)
    obtain ⟨ps, hmany, hreads, hmentionsAll⟩ := ih hatoms (length_later (length_later hn))
    have hfirst : Reads patternGrammar n .tight (.lit "|" ++ .rule PatternRule.atom) _
        (some (_, [p])) := .next (by decide) (.text rfl) hatom
    refine ⟨_, hfirst.manyCons (by decide) hmany, fun s => ?_, fun negated => ?_⟩
    · rw [List.singleton_append, List.mapM_cons, hread, hreads]
      rfl
    · rw [List.singleton_append, mentionsAll, hmentions, hmentionsAll]
      rfl

theorem reads_alternatives {atoms : List Atom} (hne : atoms ≠ []) (h : ∀ a ∈ atoms, a.Writable)
    (hrest : rest.head? ≠ some '|')
    (hn : (['|'].intercalate (atoms.map Atom.written) ++ rest).length ≤ n) :
    ∃ i w ps, Reads patternGrammar n .tight (.rule alternatives)
        (['|'].intercalate (atoms.map Atom.written) ++ rest)
        (some (rest, [.node alternatives i w ps])) ∧
      (∀ s, ps.mapM (atom s) = .ok atoms) ∧ ∀ negated, mentionsAll negated ps = [] := by
  obtain ⟨a, atoms, rfl⟩ := List.exists_cons_of_ne_nil hne
  obtain ⟨ha, hatoms⟩ := List.forall_mem_cons.mp h
  have htext : ['|'].intercalate ((a :: atoms).map Atom.written) ++ rest =
      a.written ++ ((atoms.flatMap fun a => ['|'] ++ a.written) ++ rest) := by
    rw [List.map_cons, intercalate_cons, List.flatMap_map, List.append_assoc]
  have hn' := hn
  rw [htext] at hn'
  obtain ⟨p, hatom, hread, hmentions⟩ := reads_atom ha hn'
  obtain ⟨ps, hmany, hreads, hmentionsAll⟩ := reads_moreAtoms hatoms hrest (length_later hn')
  have hbody : Reads patternGrammar n .tight (body alternatives)
      (['|'].intercalate ((a :: atoms).map Atom.written) ++ rest) (some (rest, [p] ++ ps)) := by
    rw [htext]
    exact .next (by decide) hatom hmany
  obtain ⟨i, hrule⟩ := reads_node (k := .tight) (r := alternatives) (by decide) hbody hn
  refine ⟨i, _, _, hrule, fun s => ?_, fun negated => ?_⟩
  · rw [List.singleton_append, List.mapM_cons, hread, hreads]
    rfl
  · rw [List.singleton_append, mentionsAll, hmentions, hmentionsAll]
    rfl

/-- A text that may stand behind a label test. -/
def EndsTest (cs : List Char) : Prop := ∀ c ∈ cs.head?, c = ':' ∨ c = '=' ∨ c = ' ' ∨ c = ')'

theorem EndsTest.head_eq_false (h : EndsTest rest) {p : Char → Bool} (hcolon : p ':' = false)
    (hequals : p '=' = false) (hblank : p ' ' = false) (hclosing : p ')' = false) :
    ∀ c ∈ rest.head?, p c = false := by
  intro c hc
  rcases h c hc with rfl | rfl | rfl | rfl
  · exact hcolon
  · exact hequals
  · exact hblank
  · exact hclosing

theorem EndsTest.isNameChar (h : EndsTest rest) : ∀ c ∈ rest.head?, Text.isNameChar c = false :=
  h.head_eq_false (by decide) (by decide) (by decide) (by decide)

theorem head?_oneOf {atoms : List Atom} (hne : atoms ≠ []) (h : ∀ a ∈ atoms, a.Writable) :
    ∃ c, (c = '"' ∨ c = '@') ∧
      ∀ cs : List Char, ((LabelTest.oneOf atoms).written σ ++ cs).head? = some c := by
  obtain ⟨a, atoms, rfl⟩ := List.exists_cons_of_ne_nil hne
  rw [LabelTest.written, List.map_cons, intercalate_cons]
  cases a with
  | literal l => exact ⟨'"', .inl rfl, fun cs => rfl⟩
  | category l => exact ⟨'@', .inr rfl, fun cs => rfl⟩
  | regex r => exact absurd (h _ (List.mem_cons_self ..)) id

/-- What a label test begins with. -/
theorem head?_test {t : LabelTest} (ht : t.Writable) :
    ∃ c ∈ ['_', '=', '~', '"', '@'], ∀ cs : List Char, (t.written σ ++ cs).head? = some c := by
  cases t with
  | any => exact ⟨'_', by decide, fun cs => rfl⟩
  | sameNode v => exact ⟨'=', by decide, fun cs => rfl⟩
  | sameLabel v => exact ⟨'~', by decide, fun cs => rfl⟩
  | oneOf atoms =>
    obtain ⟨c, hc, hhead⟩ := head?_oneOf (σ := σ) ht.1 ht.2
    exact ⟨c, by rcases hc with rfl | rfl <;> decide, hhead⟩

/-- A part for a label test, as it is read and as its names are mentioned. -/
structure IsTest (σ : Spelling) (p : Part) (t : LabelTest) : Prop where
  rule : p.rule = PatternRule.labelTest
  read : ∀ s, labelTest s p = .ok (t.rename (s.numbering σ))
  keys : ∀ b, (mentions b p).map Mention.key =
    (Occurrence.references b t.references).map (Occurrence.key σ)

/-- Whether a character goes on with a label that begins with two underscores. -/
def goesOn (c : Char) : Bool := c.isAlphanum || c == '_' || c == '-'

/-- Two underscores are a test for any label where no label goes on. -/
theorem reads_wildcard (hrest : ∀ c ∈ rest.head?, goesOn c = false)
    (hn : ('_' :: '_' :: rest).length ≤ n) :
    ∃ p, Reads patternGrammar n .tight (.rule PatternRule.labelTest) ('_' :: '_' :: rest)
      (some (rest, [p])) ∧ IsTest σ p .any := by
  have hend : Reads patternGrammar n .token (.absent (.char goesOn)) rest (some (rest, [])) :=
    .absent (.noChar hrest)
  have hmark : Reads patternGrammar n .token (body wildcard) (['_', '_'] ++ rest)
      (some (rest, [])) := .silent (.text rfl) (reads_gap (by decide) _) hend
  obtain ⟨i, hwildcard⟩ := reads_node (k := .tight) (r := wildcard) (by decide) hmark hn
  have hbody : Reads patternGrammar n .tight (body PatternRule.labelTest) (['_', '_'] ++ rest)
      (some (rest, [.node wildcard i ['_', '_'] []])) := .altLeft (.altLeft (.altLeft hwildcard))
  obtain ⟨j, htest⟩ := reads_node (k := .tight) (r := PatternRule.labelTest) (by decide) hbody hn
  exact ⟨_, htest, rfl, fun s => rfl, fun negated => rfl⟩

/-- **A label test is read back**, with its variables numbered as they are named. -/
theorem reads_test {t : LabelTest} (ht : t.Writable)
    (hname : ∀ v ∈ t.references, Text.isName (σ.name v).toList = true) (hrest : EndsTest rest)
    (hn : (t.written σ ++ rest).length ≤ n) :
    ∃ p, Reads patternGrammar n .tight (.rule PatternRule.labelTest) (t.written σ ++ rest)
      (some (rest, [p])) ∧ IsTest σ p t := by
  have hnode : ∀ {q : Part}, Reads patternGrammar n .tight (body PatternRule.labelTest)
      (t.written σ ++ rest) (some (rest, [q])) → ∃ i, Reads patternGrammar n .tight
        (.rule PatternRule.labelTest) (t.written σ ++ rest)
        (some (rest, [.node PatternRule.labelTest i (t.written σ) [q]])) :=
    fun hbody => reads_node (k := .tight) (r := PatternRule.labelTest) (by decide) hbody hn
  cases t with
  | any =>
    exact reads_wildcard (hrest.head_eq_false (by decide) (by decide) (by decide) (by decide)) hn
  | oneOf atoms =>
    obtain ⟨hne, hall⟩ := ht
    obtain ⟨head, hhead, hfirst⟩ := head?_oneOf (σ := σ) hne hall
    obtain ⟨i, u, ps, halternatives, hreads, hmentions⟩ := reads_alternatives hne hall
      (fun hbar => by simpa using hrest '|' hbar) hn
    -- an alternative begins with a quotation mark or with the mark of a category
    have hno : ∀ {k : Kind} c w, c ≠ '"' → c ≠ '@' → Reads patternGrammar n k (.text (c :: w))
        ((LabelTest.oneOf atoms).written σ ++ rest) none := by
      intro k c w hquote hat
      refine reads_noText fun hc => ?_
      obtain rfl := Option.some.inj ((hfirst rest).symm.trans hc)
      exact hhead.elim hquote hat
    have hwildcard : Reads patternGrammar n .tight (.rule wildcard)
        ((LabelTest.oneOf atoms).written σ ++ rest) none :=
      .noRule (.noFirst (hno '_' ['_'] (by decide) (by decide)))
    have hbody : Reads patternGrammar n .tight (body PatternRule.labelTest)
        ((LabelTest.oneOf atoms).written σ ++ rest) (some (rest, _)) :=
      .altRight (.altRight (.altRight hwildcard
          (.noRule (.noFirst (hno '=' [] (by decide) (by decide)))))
        (.noRule (.noFirst (.altRight (hno '~' [] (by decide) (by decide))
          (hno '%' [] (by decide) (by decide)))))) halternatives
    obtain ⟨j, htest⟩ := hnode hbody
    refine ⟨_, htest, rfl, fun s => ?_, fun negated => ?_⟩
    · show LabelTest.oneOf <$> ps.mapM (atom s) = _
      rw [hreads]
      rfl
    · rw [mentions_of_isTransparent rfl, List.flatMap_singleton, mentions_of_isTransparent rfl,
        ← mentionsAll_eq_flatMap, hmentions]
      rfl
  | sameNode v =>
    have hv := hname v (List.mem_singleton_self v)
    obtain ⟨i, hv⟩ := reads_name hv hrest.isNameChar (Nat.le_of_succ_le hn)
    have hbody : Reads patternGrammar n .tight (body sameNode) ('=' :: (σ.name v).toList ++ rest)
        (some (rest, _)) := .next (by decide) (.text rfl) hv
    obtain ⟨j, hsame⟩ := reads_node (k := .tight) (r := sameNode) (by decide) hbody hn
    obtain ⟨m, htest⟩ := hnode (.altLeft (.altLeft (.altRight
      (.noRule (.noFirst (reads_noText (c := '_') (by simp [LabelTest.written])))) hsame)))
    refine ⟨_, htest, rfl, fun s => ?_, fun negated => ?_⟩
    · show Except.ok (LabelTest.sameNode (s.variable (String.ofList (σ.name v).toList))) = _
      rw [String.ofList_toList]
      rfl
    · show [(String.ofList (σ.name v).toList, false, negated)] = _
      rw [String.ofList_toList]
      rfl
  | sameLabel v =>
    have hv := hname v (List.mem_singleton_self v)
    obtain ⟨i, hv⟩ := reads_name hv hrest.isNameChar (Nat.le_of_succ_le hn)
    have hbody : Reads patternGrammar n .tight (body sameLabel) ('~' :: (σ.name v).toList ++ rest)
        (some (rest, _)) := .next (by decide) (.altLeft (.text rfl)) hv
    obtain ⟨j, hsame⟩ := reads_node (k := .tight) (r := sameLabel) (by decide) hbody hn
    obtain ⟨m, htest⟩ := hnode (.altLeft (.altRight (.altRight
      (.noRule (.noFirst (reads_noText (c := '_') (by simp [LabelTest.written]))))
      (.noRule (.noFirst (reads_noText (c := '=') (by simp [LabelTest.written]))))) hsame))
    refine ⟨_, htest, rfl, fun s => ?_, fun negated => ?_⟩
    · show Except.ok (LabelTest.sameLabel (s.variable (String.ofList (σ.name v).toList))) = _
      rw [String.ofList_toList]
      rfl
    · show [(String.ofList (σ.name v).toList, false, negated)] = _
      rw [String.ofList_toList]
      rfl

/-! ## Descriptions -/

/-- A text that may stand behind a description. -/
def EndsDescription (cs : List Char) : Prop := ∀ c ∈ cs.head?, c = ' ' ∨ c = ')'

theorem EndsDescription.endsTest (h : EndsDescription rest) : EndsTest rest :=
  fun c hc => (h c hc).elim (fun h => .inr (.inr (.inl h))) fun h => .inr (.inr (.inr h))

theorem EndsDescription.head_ne (h : EndsDescription rest) {c : Char} (hblank : c ≠ ' ')
    (hclosing : c ≠ ')') : rest.head? ≠ some c :=
  fun hc => (h c hc).elim hblank hclosing

theorem reads_negation (negated : Bool) (hcs : cs.head? ≠ some '!')
    (hn : ((if negated then ['!'] else []) ++ cs).length ≤ n) :
    ∃ ps, Reads patternGrammar n .tight (.opt (.rule descriptionNegation))
        ((if negated then ['!'] else []) ++ cs) (some (cs, ps)) ∧
      (∀ s, ps.foldlM (describePart s) (.any, none) =
        .ok ({ Description.any with negated }, none)) ∧
      ∀ b, mentionsAll b ps = [] := by
  cases negated with
  | false =>
    exact ⟨[], .noOpt (.noRule (reads_noText (c := '!') hcs)), fun s => rfl, fun b => rfl⟩
  | true =>
    have hbody : Reads patternGrammar n .tight (body descriptionNegation) (['!'] ++ cs)
        (some (cs, [])) := .text rfl
    obtain ⟨i, hmark⟩ := reads_node (k := .tight) (r := descriptionNegation) (by decide) hbody hn
    exact ⟨_, .opt hmark, fun s => rfl, fun b => rfl⟩

/-- Behind a label test stand predicates and the name of a capture. -/
def mark : Expr PatternRule := .rule PatternRule.predicate ||| .rule capture

theorem reads_predicate (p : Predicate) (hn : (':' :: p.word.toList ++ rest).length ≤ n) :
    ∃ q, Reads patternGrammar n .tight mark (':' :: p.word.toList ++ rest) (some (rest, [q])) ∧
      (∀ s d c, describePart s (d, c) q = .ok ({ d with predicates := d.predicates ++ [p] }, c)) ∧
      ∀ b, mentions b q = [] := by
  have hword : Reads patternGrammar n .tight (body predicateKind) (p.word.toList ++ rest)
      (some (rest, [])) := by
    cases p with
    | leaf => exact .altLeft (.text rfl)
    | preterminal =>
      have hhead : (Predicate.preterminal.word.toList ++ rest).head? = some 'p' := rfl
      exact .altRight (reads_noText (c := 'l') (by rw [hhead]; decide)) (.altLeft (.text rfl))
    | root =>
      have hhead : (Predicate.root.word.toList ++ rest).head? = some 'r' := rfl
      exact .altRight (reads_noText (c := 'l') (by rw [hhead]; decide))
        (.altRight (reads_noText (c := 'p') (by rw [hhead]; decide)) (.text rfl))
  obtain ⟨i, hkind⟩ := reads_node (k := .tight) (r := predicateKind) (by decide) hword
    (Nat.le_of_succ_le hn)
  have hbody : Reads patternGrammar n .tight (body PatternRule.predicate)
      (':' :: p.word.toList ++ rest) (some (rest, _)) := .next (by decide) (.text rfl) hkind
  obtain ⟨j, hpredicate⟩ :=
    reads_node (k := .tight) (r := PatternRule.predicate) (by decide) hbody hn
  have hread : predicateOf p.word.toList = p := by cases p <;> decide
  refine ⟨_, .altLeft hpredicate, fun s d c => ?_, fun b => rfl⟩
  show Except.ok ({ d with predicates := d.predicates ++ [predicateOf p.word.toList] }, c) = _
  rw [hread]

theorem reads_capture {v : Option VarId} (hname : ∀ u ∈ v, Text.isName (σ.name u).toList = true)
    (hrest : EndsDescription rest) (hn : (σ.capture v ++ rest).length ≤ n) :
    ∃ qs, Reads patternGrammar n .tight (.many mark) (σ.capture v ++ rest) (some (rest, qs)) ∧
      (∀ s d, qs.foldlM (describePart s) (d, none) = .ok (d, v.map (s.numbering σ))) ∧
      ∀ b, (mentionsAll b qs).map Mention.key =
        (Occurrence.capture b v).map (Occurrence.key σ) := by
  have hnoPredicate : ∀ {cs : List Char}, cs.head? ≠ some ':' →
      Reads patternGrammar n .tight (.rule PatternRule.predicate) cs none :=
    fun h => .noRule (.noFirst (reads_noText (c := ':') h))
  have hstop : Reads patternGrammar n .tight mark rest none :=
    .altRight (hnoPredicate (hrest.head_ne (by decide) (by decide)))
      (.noRule (.noFirst (reads_noText (c := '=') (hrest.head_ne (by decide) (by decide)))))
  cases v with
  | none => exact ⟨[], .manyNone hstop, fun s d => rfl, fun b => rfl⟩
  | some v =>
    obtain ⟨i, hv⟩ := reads_name (hname v rfl) hrest.endsTest.isNameChar (Nat.le_of_succ_le hn)
    have hbody : Reads patternGrammar n .tight (body PatternRule.capture)
        ('=' :: (σ.name v).toList ++ rest) (some (rest, _)) := .next (by decide) (.text rfl) hv
    obtain ⟨j, hcapture⟩ := reads_node (k := .tight) (r := PatternRule.capture) (by decide) hbody hn
    have hmark : Reads patternGrammar n .tight mark ('=' :: (σ.name v).toList ++ rest)
        (some (rest, _)) := .altRight (hnoPredicate (by simp)) hcapture
    refine ⟨_, hmark.manyCons (by decide) (.manyNone hstop), fun s d => ?_, fun b => ?_⟩
    · show Except.ok (d, some (s.variable (String.ofList (σ.name v).toList))) = _
      rw [String.ofList_toList]
      rfl
    · show [(String.ofList (σ.name v).toList, true, b)] = _
      rw [String.ofList_toList]
      rfl

theorem reads_marks (ps : List Predicate) {v : Option VarId}
    (hname : ∀ u ∈ v, Text.isName (σ.name u).toList = true) (hrest : EndsDescription rest)
    (hn : (Predicate.writtenAll ps ++ (σ.capture v ++ rest)).length ≤ n) :
    ∃ qs, Reads patternGrammar n .tight (.many mark)
        (Predicate.writtenAll ps ++ (σ.capture v ++ rest)) (some (rest, qs)) ∧
      (∀ s d, qs.foldlM (describePart s) (d, none) =
        .ok ({ d with predicates := d.predicates ++ ps }, v.map (s.numbering σ))) ∧
      ∀ b, (mentionsAll b qs).map Mention.key =
        (Occurrence.capture b v).map (Occurrence.key σ) := by
  induction ps with
  | nil =>
    obtain ⟨qs, hmany, hreads, hkeys⟩ := reads_capture hname hrest hn
    refine ⟨qs, hmany, fun s d => ?_, hkeys⟩
    rw [hreads, List.append_nil]
  | cons p ps ih =>
    have htext : Predicate.writtenAll (p :: ps) = ':' :: p.word.toList ++ Predicate.writtenAll ps :=
      List.flatMap_cons
    rw [htext, List.append_assoc] at hn ⊢
    obtain ⟨q, hmark, hread, hmentions⟩ := reads_predicate p hn
    obtain ⟨qs, hmany, hreads, hkeys⟩ := ih (length_later hn)
    refine ⟨_, hmark.manyCons (by decide) hmany, fun s d => ?_, fun b => ?_⟩
    · rw [List.singleton_append, List.foldlM_cons, hread]
      refine (hreads s _).trans ?_
      rw [List.append_assoc, List.singleton_append]
    · rw [List.singleton_append, mentionsAll, hmentions, List.nil_append, hkeys]

theorem endsTest_marks (ps : List Predicate) {v : Option VarId} (hrest : EndsDescription rest) :
    EndsTest (Predicate.writtenAll ps ++ (σ.capture v ++ rest)) := by
  intro c hc
  cases ps with
  | nil =>
    cases v with
    | none => exact hrest.endsTest c hc
    | some v => exact .inr (.inl (Option.some.inj hc).symm)
  | cons p ps => exact .inl (Option.some.inj hc).symm

/-- What a description begins with. -/
theorem head?_description {d : Description} {v : Option VarId} (hd : d.test.Writable) :
    ∃ c ∈ ['!', '_', '=', '~', '"', '@'], ∀ cs : List Char,
      (d.written σ v ++ cs).head? = some c := by
  rw [Description.written]
  cases d.negated with
  | true => exact ⟨'!', by decide, fun cs => rfl⟩
  | false =>
    obtain ⟨c, hc, hhead⟩ := head?_test (σ := σ) hd
    refine ⟨c, List.mem_cons_of_mem _ hc, fun cs => ?_⟩
    rw [if_neg (by simp), List.nil_append, List.append_assoc]
    exact hhead _

/-- A part for a description, as it is read and as its names are mentioned. -/
structure IsDescription (σ : Spelling) (p : Part) (d : Description) (v : Option VarId) : Prop where
  rule : p.rule = description
  read : ∀ s, describe s p = .ok (d.rename (s.numbering σ), v.map (s.numbering σ))
  keys : ∀ b, (mentions b p).map Mention.key =
    (Occurrence.references b d.test.references ++ Occurrence.capture b v).map (Occurrence.key σ)

/-- A description is put together of its negation, its label test and the marks behind it. -/
theorem IsDescription.of_parts {ps qs : List Part} {q : Part} {negated : Bool} {t : LabelTest}
    {predicates : List Predicate} {v : Option VarId}
    (hnegation : ∀ s, ps.foldlM (describePart s) (.any, none) =
      .ok ({ Description.any with negated }, none))
    (hsilent : ∀ b, mentionsAll b ps = []) (htest : IsTest σ q t)
    (hmarks : ∀ s d, qs.foldlM (describePart s) (d, none) =
      .ok ({ d with predicates := d.predicates ++ predicates }, v.map (s.numbering σ)))
    (hkeys : ∀ b, (mentionsAll b qs).map Mention.key =
      (Occurrence.capture b v).map (Occurrence.key σ)) (i : Nat) (w : List Char) :
    IsDescription σ (.node description i w (ps ++ [q] ++ qs)) ⟨negated, t, predicates⟩ v where
  rule := rfl
  read s := by
    have hpart : ∀ a c, describePart s (a, c) q =
        .ok ({ a with test := t.rename (s.numbering σ) }, c) := by
      intro a c
      simp only [describePart, htest.rule, htest.read]
      rfl
    show (ps ++ [q] ++ qs).foldlM (describePart s) (.any, none) = _
    rw [List.foldlM_append, List.foldlM_append]
    exact bind_eq_ok.mpr ⟨_, bind_eq_ok.mpr ⟨_, hnegation s,
      bind_eq_ok.mpr ⟨_, hpart _ none, rfl⟩⟩, hmarks s _⟩
  keys b := by
    rw [mentions_of_isTransparent rfl, ← mentionsAll_eq_flatMap, mentionsAll_append,
      mentionsAll_append, hsilent, List.nil_append, List.map_append, hkeys, mentionsAll,
      mentionsAll, List.append_nil, htest.keys, List.map_append]

/-- **A description is read back.** -/
theorem reads_description {k : Kind} (hk : k ≠ .token) {d : Description} {v : Option VarId}
    (hd : d.test.Writable)
    (hname : ∀ u ∈ d.test.references ++ v.toList, Text.isName (σ.name u).toList = true)
    (hrest : EndsDescription rest) (hn : (d.written σ v ++ rest).length ≤ n) :
    ∃ p, Reads patternGrammar n k (.rule description) (d.written σ v ++ rest)
      (some (rest, [p])) ∧ IsDescription σ p d v := by
  obtain ⟨htest, hv⟩ := List.forall_mem_append.mp hname
  have htext : d.written σ v ++ rest = (if d.negated then ['!'] else []) ++
      (d.test.written σ ++ (Predicate.writtenAll d.predicates ++ (σ.capture v ++ rest))) := by
    rw [Description.written, List.append_assoc, List.append_assoc, List.append_assoc]
  have hlength := hn
  rw [htext] at hlength
  obtain ⟨c, hc, hhead⟩ := head?_test (σ := σ) hd
  have hmark : (d.test.written σ ++ (Predicate.writtenAll d.predicates ++
      (σ.capture v ++ rest))).head? ≠ some '!' := by
    rw [hhead]
    rintro heq
    obtain rfl := Option.some.inj heq
    exact absurd hc (by decide)
  obtain ⟨ps, hnegation, hread₁, hmentions₁⟩ := reads_negation d.negated hmark hlength
  obtain ⟨q, htest, hq⟩ :=
    reads_test hd htest (endsTest_marks d.predicates hrest) (length_later hlength)
  obtain ⟨qs, hmarks, hread₃, hkeys₃⟩ := reads_marks d.predicates
    (fun u hu => hv u (Option.mem_toList.mpr hu)) hrest (length_later (length_later hlength))
  have hbody : Reads patternGrammar n .tight (body description) (d.written σ v ++ rest)
      (some (rest, ps ++ [q] ++ qs)) := by
    rw [htext]
    exact .next (by decide) (.next (by decide) hnegation htest) hmarks
  -- inside a description nothing is skipped, wherever it stands
  have hinner : k.inner (patternGrammar.kind description) = .tight := by cases k <;> rfl
  rw [← hinner] at hbody
  obtain ⟨i, hdescription⟩ := reads_node hk hbody hn
  exact ⟨_, hdescription, .of_parts hread₁ hmentions₁ hq hread₃ hkeys₃ i _⟩

end PatternReader

end Constituency
