import Constituency.Proofs.Pattern.RoundTrip

/-!
# Labels without quotation marks

A label whose characters have no meaning in patterns can be written as it is (`IsBare`). The grammar
comes to such labels last. What stands before them in a choice begins with a character that they do
not have, except for the test for any label, two underscores: it is passed over only if a letter, a
digit, an underscore or a hyphen of ASCII follows, although a label can go on with many others.

So a bare label is read as it is unless it begins with two underscores that another character
follows (`BeginsAsWildcard`). In that case the two underscores are read as the test for any label,
and what follows is not expected there: the text is no pattern at all (`Pattern.parse_bare`).
-/

namespace Constituency

open Grammar PatternRule

/-- The node that is tested for one label. -/
def NodePattern.ofLabel (label : String) : NodePattern :=
  .mk ⟨false, .oneOf [.literal label], []⟩ none none

namespace PatternReader

/-- Whether a character has no meaning in patterns. -/
def isPlain (c : Char) : Bool := !(reserved ++ blanks).contains c

/-- A text that has the form of a label without quotation marks. -/
structure IsBare (label : List Char) : Prop where
  ne_nil : label ≠ []
  plain : ∀ c ∈ label, isPlain c = true
  ne_wildcard : label ≠ ['_', '_']

/-- Whether a label begins with two underscores and a character that the test for any label does not
take for a part of a label. -/
def BeginsAsWildcard (label : List Char) : Prop :=
  ∃ c rest, label = '_' :: '_' :: c :: rest ∧ goesOn c = false

/-- A text that may stand behind a label without quotation marks. -/
def EndsBare (cs : List Char) : Prop := ∀ c ∈ cs.head?, c = ' ' ∨ c = ')' ∨ c = '('

variable {n : Nat} {σ : Spelling} {cs label rest : List Char}

theorem EndsBare.head_ne (h : EndsBare rest) {c : Char} (hc : c ∉ [' ', ')', '(']) :
    rest.head? ≠ some c :=
  fun hhead => hc (by simpa using h c hhead)

/-- A text that begins with a plain character begins with no other one. -/
theorem head?_ne_of_plain (hcs : ∀ c ∈ cs.head?, isPlain c = true) {c : Char}
    (hc : isPlain c = false) : cs.head? ≠ some c :=
  fun hhead => absurd (hcs c hhead) (by simp [hc])

/-- No condition begins with a plain character or goes on with one. -/
theorem stops_of_plain (hcs : ∀ c ∈ cs.head?, isPlain c = true) : Stops cs where
  afterBlanks := by
    refine afterBlanks_eq fun c hc => Bool.eq_false_iff.mpr fun hblank => ?_
    have hmeaning : (blanks.all (!isPlain ·)) = true := by decide
    have hno := List.all_eq_true.mp hmeaning c (List.contains_iff_mem.mp hblank)
    exact head?_ne_of_plain hcs (by simpa using hno) hc
  noOpening c hc hopening := by
    have hmeaning : (openings.all (!isPlain ·)) = true := by decide
    have hno := List.all_eq_true.mp hmeaning c hopening
    exact head?_ne_of_plain hcs (by simpa using hno) hc
  no_and := head?_ne_of_plain hcs (by decide)
  no_bar := head?_ne_of_plain hcs (by decide)

namespace IsBare

variable (h : IsBare label)

include h

theorem head?_plain (rest : List Char) :
    ∀ c ∈ (label ++ rest).head?, isPlain c = true := by
  obtain ⟨c, label, rfl⟩ := List.exists_cons_of_ne_nil h.ne_nil
  intro x hx
  obtain rfl := Option.some.inj hx
  exact h.plain c (List.mem_cons_self ..)

/-- A bare label takes all of its characters. -/
theorem reads_literal (hrest : EndsBare rest) (hn : (label ++ rest).length ≤ n) :
    ∃ i, Reads patternGrammar n .tight (.rule literal) (label ++ rest)
      (some (rest, [.node literal i label []])) := by
  have hone : ∀ c cs, isPlain c = true → Reads patternGrammar n .token
      (.absent (.oneChar (reserved ++ blanks)) ++ .anyChar) (c :: cs) (some (cs, [])) :=
    fun c cs hc => reads_unless (by decide) rfl (by rwa [isPlain, Bool.not_eq_true'] at hc) cs
  have hnone : ∀ cs : List Char, (∀ c ∈ cs.head?, isPlain c = false) →
      Reads patternGrammar n .token (.absent (.oneChar (reserved ++ blanks)) ++ .anyChar) cs none :=
    fun cs hcs => reads_no_unless (by decide) rfl fun c hc => by
      have hmeaning := hcs c hc
      rwa [isPlain, Bool.not_eq_false'] at hmeaning
  have hend : ∀ c ∈ rest.head?, isPlain c = false := by
    intro c hc
    rcases hrest c hc with rfl | rfl | rfl <;> decide
  obtain ⟨c, tail, rfl⟩ := List.exists_cons_of_ne_nil h.ne_nil
  obtain ⟨hc, htail⟩ := List.forall_mem_cons.mp h.plain
  have hrun := reads_span (g := patternGrammar) (n := n) (k := .token) (by decide) hone hnone
    (tail ++ rest)
  rw [dropWhile_append htail hend] at hrun
  have hbody : Reads patternGrammar n .token (body literal) (c :: tail ++ rest)
      (some (rest, [])) := .next (by decide) (hone c _ hc) hrun
  exact reads_node (k := .tight) (by decide) hbody hn

/-- Two underscores in front belong to the label, which goes on behind them. -/
theorem exists_goesOn (hno : ¬ BeginsAsWildcard label) (hrest : EndsBare rest)
    (hmark : ['_', '_'] <+: label ++ rest) :
    ∃ c tail, label = '_' :: '_' :: c :: tail ∧ goesOn c = true := by
  obtain ⟨cs, hcs⟩ := hmark
  match label, h, hno with
  | [], h, _ => exact absurd rfl h.ne_nil
  | [c], _, _ =>
    have hsecond := congrArg (fun cs => cs.tail.head?) hcs
    exact absurd (hrest '_' hsecond.symm) (by decide)
  | [c, d], h, _ =>
    obtain ⟨hc, hd, -⟩ : '_' = c ∧ '_' = d ∧ cs = rest := by simpa using hcs
    subst hc hd
    exact absurd rfl h.ne_wildcard
  | c :: d :: e :: tail, _, hno =>
    obtain ⟨hc, hd, -⟩ : '_' = c ∧ '_' = d ∧ cs = e :: tail ++ rest := by simpa using hcs
    subst hc hd
    exact ⟨e, tail, rfl, by_contra fun he => hno ⟨e, tail, rfl, Bool.eq_false_iff.mpr he⟩⟩

/-- The test for any label is passed over. -/
theorem reads_noWildcard (hno : ¬ BeginsAsWildcard label) (hrest : EndsBare rest) :
    Reads patternGrammar n .tight (.rule wildcard) (label ++ rest) none := by
  by_cases hmark : ['_', '_'] <+: label ++ rest
  · obtain ⟨c, tail, rfl, hc⟩ := h.exists_goesOn hno hrest hmark
    exact .noRule (.noSecond (.text rfl) (reads_gap (by decide) _) (.notAbsent (.char hc)))
  · exact .noRule (.noFirst (.noText hmark))

theorem reads_test (hno : ¬ BeginsAsWildcard label) (hrest : EndsBare rest)
    (hn : (label ++ rest).length ≤ n) :
    ∃ p, Reads patternGrammar n .tight (.rule PatternRule.labelTest) (label ++ rest)
      (some (rest, [p])) ∧ IsTest σ p (.oneOf [.literal (String.ofList label)]) := by
  have hother : ∀ {k : Kind} c w, isPlain c = false →
      Reads patternGrammar n k (.text (c :: w)) (label ++ rest) none :=
    fun c w hc => reads_noText (head?_ne_of_plain (h.head?_plain rest) hc)
  obtain ⟨i, hliteral⟩ := h.reads_literal hrest hn
  have hatom : Reads patternGrammar n .tight (body PatternRule.atom) (label ++ rest)
      (some (rest, [.node literal i label []])) :=
    .altRight (.altRight (.altRight
        (.noRule (.noFirst (.noFirst (hother '/' [] (by decide)))))
        (.noRule (.noFirst (hother '@' [] (by decide)))))
      (.noRule (.noFirst (.noFirst (hother '"' [] (by decide)))))) hliteral
  obtain ⟨j, hatom⟩ := reads_node (k := .tight) (r := PatternRule.atom) (by decide) hatom hn
  have hlast : Reads patternGrammar n .tight (.lit "|" ++ .rule PatternRule.atom) rest none :=
    .noFirst (reads_noText fun hbar => by simpa using hrest '|' hbar)
  obtain ⟨m, halternatives⟩ := reads_node (k := .tight) (r := alternatives) (by decide)
    (.next (by decide) hatom (.manyNone hlast)) hn
  have hbody : Reads patternGrammar n .tight (body PatternRule.labelTest) (label ++ rest)
      (some (rest, _)) :=
    .altRight (.altRight (.altRight (h.reads_noWildcard hno hrest)
        (.noRule (.noFirst (hother '=' [] (by decide)))))
      (.noRule (.noFirst (.altRight (hother '~' [] (by decide)) (hother '%' [] (by decide))))))
      halternatives
  obtain ⟨u, htest⟩ := reads_node (k := .tight) (r := PatternRule.labelTest) (by decide) hbody hn
  exact ⟨_, htest, rfl, fun s => rfl, fun b => rfl⟩

end IsBare

/-! ## Targets -/

/-- A label test with nothing behind it is a target. -/
theorem reads_tested {q : Part} {t : LabelTest}
    (htest : Reads patternGrammar n .tight (.rule PatternRule.labelTest) cs (some (rest, [q])))
    (hq : IsTest σ q t) (hnegation : cs.head? ≠ some '!') (hopening : cs.head? ≠ some '(')
    (hcolon : rest.head? ≠ some ':') (hequals : rest.head? ≠ some '=') (hn : cs.length ≤ n) :
    ∃ q', Reads patternGrammar n .spaced target cs (some (rest, [q'])) ∧
      IsDescription σ q' ⟨false, t, []⟩ none := by
  obtain ⟨ps, hfront, hread, hsilent⟩ := reads_negation (n := n) false hnegation hn
  have hmarks : Reads patternGrammar n .tight (.many mark) rest (some (rest, [])) :=
    .manyNone (.altRight (.noRule (.noFirst (reads_noText hcolon)))
      (.noRule (.noFirst (reads_noText hequals))))
  have hbody : Reads patternGrammar n .tight (body description) cs
      (some (rest, ps ++ [q] ++ [])) := .next (by decide) (.next (by decide) hfront htest) hmarks
  obtain ⟨i, w, hdescription⟩ := reads_part (k := .spaced) (r := description) (by decide) hbody hn
  refine ⟨_, .altRight (.noFirst (.noFirst (reads_noText hopening))) hdescription, ?_⟩
  exact .of_parts hread hsilent hq (fun s d => by rw [List.append_nil]; rfl) (fun b => rfl) i w

/-- A text is read as a target with a description, as far as a rest, however long the whole text
is that it stands in. -/
def DescribesTarget (σ : Spelling) (cs rest : List Char) (d : Description) : Prop :=
  ∀ n, cs.length ≤ n → ∃ q, Reads patternGrammar n .spaced target cs (some (rest, [q])) ∧
    IsDescription σ q d none

/-- A bare label is a target that is tested for it. -/
theorem IsBare.describesTarget (h : IsBare label) (hno : ¬ BeginsAsWildcard label)
    (hrest : EndsBare rest) :
    DescribesTarget σ (label ++ rest) rest
      ⟨false, .oneOf [.literal (String.ofList label)], []⟩ := by
  intro n hn
  have hplain := h.head?_plain rest
  obtain ⟨q, htest, hq⟩ := h.reads_test hno hrest hn
  exact reads_tested htest hq (head?_ne_of_plain hplain (by decide))
    (head?_ne_of_plain hplain (by decide)) (hrest.head_ne (by decide))
    (hrest.head_ne (by decide)) hn

/-- Of a label that begins as the test for any label only this test is read. -/
theorem IsBare.describesFront (h : IsBare label) (hwildcard : BeginsAsWildcard label) :
    ∃ rest, rest ≠ [] ∧ Stops rest ∧ DescribesTarget σ label rest .any := by
  obtain ⟨c, tail, rfl, hc⟩ := hwildcard
  have hplain : ∀ x ∈ (c :: tail).head?, isPlain x = true := by
    intro x hx
    obtain rfl := Option.some.inj hx
    exact h.plain c (by simp)
  have hend : ∀ x ∈ (c :: tail).head?, goesOn x = false := by
    intro x hx
    obtain rfl := Option.some.inj hx
    exact hc
  refine ⟨c :: tail, List.cons_ne_nil c tail, stops_of_plain hplain, fun n hn => ?_⟩
  obtain ⟨p, htest, hp⟩ := reads_wildcard (σ := σ) hend hn
  exact reads_tested htest hp (by simp) (by simp) (head?_ne_of_plain hplain (by decide))
    (head?_ne_of_plain hplain (by decide)) hn

/-! ## Nodes -/

/-- A description that stands for a node. -/
theorem IsDescription.isNode {q : Part} {d : Description} {v : Option VarId}
    (h : IsDescription σ q d v) : IsNode σ q (.mk d v none) :=
  ⟨h.node, h.keys⟩

/-- The text of a node with a target that it is the parent of. -/
def parentText (target : List Char) : List Char := 'X' :: ' ' :: '<' :: ' ' :: target

/-- The pattern of a node that is the parent of a target. -/
def parentOf (d : Description) : NodePattern :=
  .mk ⟨false, .oneOf [.literal "X"], []⟩ none (some (.related .parentOf (.mk d none none)))

variable {d : Description}

/-- What is read as a target is a node by itself. -/
theorem DescribesTarget.reads_node (h : DescribesTarget σ cs rest d) (hrest : Stops rest) :
    ∃ q, Reads patternGrammar cs.length .spaced (.rule nodeExpr) cs (some (rest, [q])) ∧
      IsNode σ q (.mk d none none) := by
  obtain ⟨q, htarget, hq⟩ := h cs.length (Nat.le_refl _)
  exact reads_lone htarget hq hrest (Nat.le_refl _)

/-- The parent of a target is read up to where the target ends. -/
theorem DescribesTarget.reads_parent (h : DescribesTarget σ cs rest d)
    (hcs : afterBlanks cs = cs) (hrest : Stops rest) :
    ∃ q, Reads patternGrammar (parentText cs).length .spaced (.rule nodeExpr) (parentText cs)
      (some (rest, [q])) ∧ IsNode σ q (parentOf d) := by
  have hhead : IsBare ['X'] := ⟨by decide, List.all_eq_true.mp rfl, by decide⟩
  have hblank : EndsBare (' ' :: '<' :: ' ' :: cs) :=
    fun c hc => .inl (Option.some.inj hc).symm
  have hX : ¬ BeginsAsWildcard ['X'] := fun ⟨_, _, h, _⟩ => absurd h (by simp)
  obtain ⟨p, hdescription, hp⟩ :=
    hhead.describesTarget (σ := σ) hX hblank (parentText cs).length (Nat.le_refl _)
  have hlater : ('<' :: ' ' :: cs).length ≤ (parentText cs).length :=
    length_later (w := ['X', ' ']) (Nat.le_refl _)
  obtain ⟨q, htarget, hq⟩ := h _ (length_later (w := ['<', ' ']) hlater)
  obtain ⟨op, hop, hread, hmentions⟩ := reads_token (t := "<") (r := .parentOf) rfl hlater
  have hrelation : IsRelation σ op .parentOf := ⟨hread, fun b => by rw [hmentions b]; rfl⟩
  obtain ⟨u, hterm, hu⟩ := reads_related hop hrelation rfl (by decide) hcs htarget hq.isNode hlater
  obtain ⟨u', hcondition, -, hu'⟩ := reads_single hterm hu hrest hlater
  exact reads_conditioned hdescription hp rfl hcondition hu' (Nat.le_refl _)

end PatternReader

namespace Pattern

open PatternReader

/-- A text is no pattern if something is left of it behind its node. -/
theorem parse_refused {cs rest : List Char} {q : Part}
    (h : Reads patternGrammar cs.length .spaced (.rule nodeExpr) cs (some (rest, [q])))
    (hne : rest ≠ []) (hcs : afterBlanks cs = cs) (hrest : afterBlanks rest = rest)
    (marks : Marks) (p : Pattern) : Pattern.parse (String.ofList cs) marks ≠ .ok p := by
  intro hp
  obtain ⟨e, hparse⟩ : ∃ e, patternGrammar.parse pattern cs = .ok e := by
    unfold Pattern.parse at hp
    rw [String.toList_ofList] at hp
    cases hresult : patternGrammar.parse pattern cs with
    | ok e => exact ⟨e, rfl⟩
    | error f =>
      dsimp only at hp
      rw [hresult] at hp
      exact absurd hp (by simp)
  obtain ⟨later, ps, hbody, -⟩ := (parse_eq_ok_iff bounds_hold rfl (by decide)).mp hparse
  have hend : Reads patternGrammar cs.length .spaced (.rule endOfText) rest none :=
    .noRule (.noTextEnd hne)
  have hnone : Reads patternGrammar cs.length .spaced (body pattern).afterStart cs none :=
    .noSecond (reads_spaced (.text rfl) hcs h) (hrest ▸ reads_blanks rest) hend
  exact absurd (hnone.unique hbody) (by simp)

/-- **Bare labels are read as they are, with one exception.** Such a label is a pattern, of one
node that is tested for it; as a target it is the same node. If it begins with two underscores
before a character that the test for any label does not take for a part of a label, neither text is
a pattern. -/
theorem parse_bare {label : String} (h : IsBare label.toList) (marks : Marks) :
    let parent := "X < " ++ label
    (¬ BeginsAsWildcard label.toList →
      Pattern.parse label marks = .ok ⟨label, .ofLabel label, [], [], marks⟩ ∧
      Pattern.parse parent marks = .ok ⟨parent, .mk ⟨false, .oneOf [.literal "X"], []⟩ none
        (some (.related .parentOf (.ofLabel label))), [], [], marks⟩) ∧
    (BeginsAsWildcard label.toList → ∀ p, Pattern.parse label marks ≠ .ok p ∧
      Pattern.parse parent marks ≠ .ok p) := by
  intro parent
  let σ : Spelling := .usual fun _ => ""
  have hself : String.ofList label.toList = label := String.ofList_toList
  have hparent : String.ofList (parentText label.toList) = parent := by
    apply String.toList_inj.mp
    rw [String.toList_ofList, String.toList_append]
    rfl
  have hplain := h.head?_plain []
  rw [List.append_nil] at hplain
  have hblanks : afterBlanks label.toList = label.toList := (stops_of_plain hplain).afterBlanks
  constructor
  · intro hno
    have hend : EndsBare [] := fun c hc => absurd hc (by simp)
    have hstops : Stops [] := stops_of_plain fun c hc => absurd hc (by simp)
    have htarget := h.describesTarget (σ := σ) hno hend
    rw [List.append_nil, hself] at htarget
    obtain ⟨q, hnode, hq⟩ := htarget.reads_node hstops
    obtain ⟨q', hnode', hq'⟩ := htarget.reads_parent hblanks hstops
    have hlone := parse_unnamed hnode hblanks hq rfl (fun _ => rfl) marks
    have hbelow := parse_unnamed hnode' rfl hq' rfl (fun _ => rfl) marks
    rw [hself] at hlone
    rw [hparent] at hbelow
    exact ⟨hlone, hbelow⟩
  · intro hwildcard p
    obtain ⟨rest, hne, hrest, htarget⟩ := h.describesFront (σ := σ) hwildcard
    obtain ⟨q, hnode, -⟩ := htarget.reads_node hrest
    obtain ⟨q', hnode', -⟩ := htarget.reads_parent hblanks hrest
    have hlone := parse_refused hnode hne hblanks hrest.afterBlanks marks p
    have hbelow := parse_refused hnode' hne rfl hrest.afterBlanks marks p
    rw [hself] at hlone
    rw [hparent] at hbelow
    exact ⟨hlone, hbelow⟩

/-- A label that goes on with a hyphen behind two underscores, and then with a character that is
neither ASCII nor a letter. -/
theorem parse_bare_of_underscores :
    let parent := "X < " ++ "__-€"
    IsBare "__-€".toList ∧ ¬ BeginsAsWildcard "__-€".toList ∧
      Pattern.parse "__-€" .standard = .ok ⟨"__-€", .ofLabel "__-€", [], [], .standard⟩ ∧
      Pattern.parse parent .standard = .ok ⟨parent, .mk ⟨false, .oneOf [.literal "X"], []⟩ none
        (some (.related .parentOf (.ofLabel "__-€"))), [], [], .standard⟩ := by
  have hbare : IsBare "__-€".toList := ⟨by decide, List.all_eq_true.mp rfl, by decide⟩
  have hno : ¬ BeginsAsWildcard "__-€".toList := by
    intro ⟨c, rest, hlabel, hc⟩
    obtain ⟨rfl, -⟩ : '-' = c ∧ ['€'] = rest := by simpa using hlabel
    exact absurd hc (by decide)
  exact ⟨hbare, hno, (parse_bare hbare .standard).1 hno⟩

/-- Not every bare label is a pattern: in front of a letter that is not ASCII two underscores are
taken for the test for any label. -/
theorem bare_label_is_refused : ¬ ∀ (label : String) (marks : Marks), IsBare label.toList →
    ∃ p, Pattern.parse label marks = .ok p ∧ p.root = .ofLabel label := by
  intro hall
  obtain ⟨p, hp, -⟩ := hall "__é" .standard ⟨by decide, List.all_eq_true.mp rfl, by decide⟩
  have hrefused : (Pattern.parse "__é" .standard).toOption.isSome = false := rfl
  have hread := congrArg (fun x => x.toOption.isSome) hp
  exact absurd (hrefused.symm.trans hread) Bool.false_ne_true

end Pattern

end Constituency
