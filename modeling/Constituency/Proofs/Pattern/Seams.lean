import Constituency.Proofs.Grammar.Steady
import Constituency.Proofs.Pattern.BareLabels

/-!
# Descriptions in front of more text

What is read of a text is read of it too if a blank or a closing bracket follows the text
(`SetsApart`), unless it could go on with what is left of it. Most rules of patterns are not
affected by what follows at all (`isSettled`). Two are affected by what is left: an alternative may
follow a label test behind a bar (`EndsAlternatives`), and a description in parentheses may follow a
sign and a plus (`EndsOperator`). So labels, descriptions and the operators of relations are kept in
front of more text if what is left is neither.
-/

namespace Constituency

open Grammar PatternRule

namespace PatternReader

/-- A blank, and what closes a bracket. -/
def partings : List Char := [' ', ')', ']']

/-- A text that sets apart what stands before it: it begins with a blank or closes a bracket. -/
def SetsApart (z : List Char) : Prop := ∃ c ∈ partings, z.head? = some c

/-- The rules that are not affected by a text that sets apart. -/
def isSettled : PatternRule → Bool
  | chainDirection | nthOp | simpleOp | descriptionNegation | wildcard | sameNode | sameLabel
  | literal | predicate | predicateKind | capture | name => true
  | _ => false

theorem steadyRules {c : Char} (hc : c ∈ partings) :
    SteadyRules patternGrammar c isSettled where
  body r k h := by
    have hc : c = ' ' ∨ c = ')' ∨ c = ']' := by simpa [partings] using hc
    cases r <;> first
      | exact absurd h Bool.false_ne_true
      | rcases hc with rfl | rfl | rfl <;> rfl

/-- Whether a part is found in the same way if `z` follows, when what is left is as asked for. -/
abbrev Kept (n : Nat) (z : List Char) (k : Kind) (e : Expr PatternRule)
    (asked : List Char → Prop) (v : List Char) : Prop :=
  KeptAt patternGrammar n z k e (fun v' _ => asked v') v

variable {n : Nat} {k : Kind} {e : Expr PatternRule} {u v z cs : List Char}

theorem head?_append_of {c : Char} (h : v.head? = some c) : (v ++ z).head? = some c := by
  rw [List.head?_append, h]
  rfl

section settled

variable (hz : SetsApart z)

include hz

theorem reads_settled {o : Answer PatternRule} (h : Reads patternGrammar n .tight e v o)
    (he : (partings.all fun c => e.steady c isSettled .tight) = true) :
    Reads patternGrammar (n + z.length) .tight e (v ++ z) (o.followedBy z) := by
  obtain ⟨c, hc, hhead⟩ := hz
  exact h.beforehand (steadyRules hc) hhead rfl (List.all_eq_true.mp he c hc)

theorem kept_settled {asked : List Char → Prop}
    (he : (partings.all fun c => e.steady c isSettled .tight) = true) :
    Kept n z .tight e asked v :=
  fun _ _ h _ => reads_settled hz h he

end settled

/-! ## Labels -/

theorem reads_noLiteral (h : ∀ c ∈ cs.head?, isPlain c = false) :
    Reads patternGrammar n k (.rule literal) cs none :=
  .noRule (.noFirst (reads_no_unless (by cases k <;> decide) rfl fun c hc => by
    have hmeaning := h c hc
    rwa [isPlain, Bool.not_eq_false'] at hmeaning))

/-- Whether an alternative of a label test can begin with a character. -/
def opensLabel (c : Char) : Bool := isPlain c || ['/', '@', '"'].contains c

theorem reads_noAtom (h : ∀ c ∈ cs.head?, opensLabel c = false) :
    Reads patternGrammar n k (.rule PatternRule.atom) cs none := by
  have hmark : ∀ {c : Char}, opensLabel c = true → cs.head? ≠ some c :=
    fun hc hhead => absurd hc (by simp [h _ hhead])
  refine .noRule (.altRight (.altRight (.altRight ?_ ?_) ?_) (reads_noLiteral fun c hc => ?_))
  · exact .noRule (reads_noMark (c := '/') rfl (hmark (by decide)))
  · exact .noRule (reads_noMark (c := '@') rfl (hmark (by decide)))
  · exact .noRule (reads_noMark (c := '"') rfl (hmark (by decide)))
  · exact (Bool.or_eq_false_iff.mp (h c hc)).1

theorem isPlain_of_reads {x : List Char × List Part}
    (h : Reads patternGrammar n k (.rule literal) cs (some x)) :
    ∃ c, cs.head? = some c ∧ isPlain c = true := by
  by_contra hno
  refine absurd ((reads_noLiteral fun c hc => ?_).unique h) (by simp)
  exact Bool.eq_false_iff.mpr fun hplain => hno ⟨c, hc, hplain⟩

/-- A text between two delimiters is closed. -/
theorem kept_enclosed {outer inside : PatternRule} {d : Char}
    (houter : patternGrammar.kind outer = .tight) (hinside : patternGrammar.kind inside = .token)
    (hd : d ≠ '\\')
    (hbody : body outer = .seq (.seq (.text [d]) (.rule inside)) (.text [d]))
    (hparts : body inside = .many (bodyPart d (.text [d]))) :
    Kept n z .tight (.rule outer) (fun _ => True) v := by
  have htight : Kind.tight.inner (patternGrammar.kind outer) = .tight := by rw [houter]; rfl
  have hstop : (Expr.text [d] : Expr PatternRule).byHead = true := beq_self_eq_true d
  have hinner : ∀ u, Kept n z .tight (.rule inside) (fun v' => v' ≠ []) u := fun u =>
    keptAt_delimited hinside hd fun n cs => by
      show Reads patternGrammar n .token (body inside) cs _
      rw [hparts]
      exact reads_body (by decide) hstop (by simpa [Expr.heads] using hd) cs
  refine KeptAt.rule_rest ?_
  rw [htight]
  show Kept n z .tight (body outer) (fun _ => True) v
  rw [hbody]
  refine KeptAt.next (fun u => u ≠ []) (by decide) ?_ (fun _ _ _ => keptAt_text) ?_
  · exact KeptAt.next_always (by decide) keptAt_text hinner
  · intro u v' ps h _ hu
    have hhead := h.head?_mark rfl
    rw [hu] at hhead
    exact absurd hhead (by simp)

theorem kept_quoted : Kept n z .tight (.rule quoted) (fun _ => True) v :=
  kept_enclosed rfl rfl (by decide) rfl rfl

theorem kept_regex : Kept n z .tight (.rule regex) (fun _ => True) v :=
  kept_enclosed rfl rfl (by decide) rfl rfl

section apart

variable (hz : SetsApart z)

include hz

theorem kept_literal {asked : List Char → Prop} : Kept n z .tight (.rule literal) asked v :=
  kept_settled hz rfl

theorem kept_category : Kept n z .tight (.rule category) (fun _ => True) v := by
  have hlabel : ∀ u, Kept n z .tight (.rule quoted ||| .rule literal) (fun _ => True) u := by
    refine fun u => KeptAt.alt kept_quoted (kept_literal hz) fun v' ps _ h _ => ?_
    obtain ⟨c, hc, hplain⟩ := isPlain_of_reads h
    refine .noRule (reads_noMark (c := '"') rfl ?_)
    rw [head?_append_of hc]
    rintro ⟨⟩
    exact absurd hplain (by decide)
  exact (KeptAt.next_always (by decide) keptAt_text hlabel).rule_rest

/-- The alternatives of a label test begin in different ways. -/
theorem kept_atom : Kept n z .tight (.rule PatternRule.atom) (fun _ => True) v := by
  have hno : ∀ {r : PatternRule} {c d : Char} {w : List Char},
      (body r).front = .text (c :: w) → v.head? = some d → d ≠ c →
      Reads patternGrammar (n + z.length) .tight (.rule r) (v ++ z) none := by
    intro r c d w hfront hd hne
    refine .noRule (reads_noMark hfront ?_)
    rw [head?_append_of hd]
    exact fun h => hne (Option.some.inj h)
  refine KeptAt.rule_rest ?_
  refine KeptAt.alt (KeptAt.alt (KeptAt.alt kept_regex (kept_category hz) ?category)
    kept_quoted ?quoted) (kept_literal hz) ?literal
  case category =>
    intro v' ps _ h _
    cases h with
    | rule h _ _ => exact hno (r := regex) rfl (h.head?_mark (c := '@') rfl) (by decide)
  case quoted =>
    intro v' ps _ h _
    cases h with
    | rule h _ _ =>
      have hhead := h.head?_mark (c := '"') rfl
      exact .altRight (hno (r := regex) rfl hhead (by decide))
        (hno (r := category) rfl hhead (by decide))
  case literal =>
    intro v' ps _ h _
    obtain ⟨c, hc, hplain⟩ := isPlain_of_reads h
    have hne : ∀ d, isPlain d = false → c ≠ d := fun d hd hcd => absurd hplain (by simp [hcd, hd])
    exact .altRight (.altRight (hno (r := regex) rfl hc (hne _ (by decide)))
        (hno (r := category) rfl hc (hne _ (by decide))))
      (hno (r := quoted) rfl hc (hne _ (by decide)))

end apart

/-! ## Descriptions -/

/-- A text that may be left of a label test: if it begins with a bar, no further alternative
follows. -/
def EndsAlternatives (u : List Char) : Prop :=
  ∀ w, u = '|' :: w → ∀ c ∈ w.head?, opensLabel c = false

theorem EndsAlternatives.of_head (h : u.head? ≠ some '|') : EndsAlternatives u :=
  fun _ hw => absurd (congrArg List.head? hw) h

theorem SetsApart.head_eq_false (hz : SetsApart z) {p : Char → Bool}
    (hp : (partings.all fun c => !p c) = true) : ∀ c ∈ z.head?, p c = false := by
  obtain ⟨d, hd, hhead⟩ := hz
  intro c hc
  obtain rfl := Option.some.inj (hhead.symm.trans hc)
  simpa using List.all_eq_true.mp hp d hd

theorem SetsApart.head_ne (hz : SetsApart z) {c : Char} (hc : c ∉ partings) :
    z.head? ≠ some c := by
  obtain ⟨d, hd, hhead⟩ := hz
  rw [hhead]
  rintro ⟨⟩
  exact hc hd

/-- A text does not begin with a character if neither it nor what follows does. -/
theorem head?_append_ne {c : Char} (hz : z.head? ≠ some c) (hu : u.head? ≠ some c) :
    (u ++ z).head? ≠ some c := by
  cases u with
  | nil => exact hz
  | cons d u => exact hu

section apart

variable (hz : SetsApart z)

include hz

theorem EndsAlternatives.reads_none (h : EndsAlternatives u) :
    Reads patternGrammar n .tight (.lit "|" ++ .rule PatternRule.atom) (u ++ z) none := by
  by_cases hbar : u.head? = some '|'
  · obtain ⟨w, rfl⟩ := List.head?_eq_some_iff.mp hbar
    refine .noSecond (.text rfl) (reads_gap (by decide) _) (reads_noAtom ?_)
    cases w with
    | nil => exact hz.head_eq_false rfl
    | cons c w => exact h (c :: w) rfl
  · exact reads_noMark (c := '|') rfl (head?_append_ne (hz.head_ne (by decide)) hbar)

theorem kept_alternatives : Kept n z .tight (.rule alternatives) EndsAlternatives v := by
  have hmore : ∀ u, Kept n z .tight (.lit "|" ++ .rule PatternRule.atom) (fun _ => True) u :=
    fun u => KeptAt.next_always (by decide) keptAt_text fun _ => kept_atom hz
  refine KeptAt.rule_rest ?_
  refine KeptAt.next_always (by decide) (kept_atom hz) fun u => ?_
  refine KeptAt.many (q := fun _ _ => True) (fun u _ => hmore u) ?_ (fun _ _ _ => trivial)
    (fun u _ h _ => h.reads_none hz) ?_
  · intro u u' v' ps rs qs hgap _ _ h
    obtain ⟨rfl, rfl⟩ := Prod.mk.inj (Option.some.inj ((reads_gap (by decide) u).unique hgap))
    exact ⟨h, trivial, reads_gap (by decide) _⟩
  · intro u u' ps qs h hgap _
    exact ⟨_, _, reads_gap (by decide) _, h.reads_none hz⟩

theorem kept_labelTest : Kept n z .tight (.rule PatternRule.labelTest) EndsAlternatives v := by
  refine KeptAt.rule_rest ?_
  exact KeptAt.alt (kept_settled hz rfl) (kept_alternatives hz)
    fun v' ps hnone _ _ => reads_settled hz hnone rfl

theorem kept_description : Kept n z k (.rule description) EndsAlternatives v := by
  have htest : ∀ u, Kept n z .tight (.rule PatternRule.labelTest) EndsAlternatives u :=
    fun u => kept_labelTest hz
  refine KeptAt.rule_rest ?_
  show Kept n z .tight (body description) EndsAlternatives v
  refine KeptAt.next EndsAlternatives (by decide) ?_
    (fun u _ _ => kept_settled hz rfl) ?_
  · exact KeptAt.next_always (by decide) (kept_settled hz rfl) htest
  -- where a bar is left nothing is found behind it
  · intro u v' ps h hv'
    by_cases hbar : u.head? = some '|'
    · have hne : ∀ {c : Char}, c ≠ '|' → u.head? ≠ some c :=
        fun hc h => hc (Option.some.inj (h.symm.trans hbar))
      have hnone : Reads patternGrammar n .tight (.many mark) u (some (u, [])) :=
        .manyNone (.altRight (.noRule (reads_noMark (c := ':') rfl (hne (by decide))))
          (.noRule (reads_noMark (c := '=') rfl (hne (by decide)))))
      obtain ⟨rfl, -⟩ := Prod.mk.inj (Option.some.inj (hnone.unique h))
      exact hv'
    · exact .of_head hbar

end apart

/-! ## Relations -/

section apart

variable (hz : SetsApart z)

include hz

theorem kept_chainOp : Kept n z .tight (.rule chainOp) (fun _ => True) v := by
  have hdescription : ∀ u, Kept n z .tight (.rule description) EndsAlternatives u :=
    fun u => kept_description hz
  refine KeptAt.rule_rest ?_
  refine KeptAt.next EndsAlternatives (by decide) ?_ (fun _ _ _ => keptAt_text) ?_
  · refine KeptAt.next_always (by decide) ?_ hdescription
    exact KeptAt.next_always (by decide) (kept_settled hz rfl) fun _ => keptAt_text
  · intro u v' ps h _
    refine .of_head fun hbar => ?_
    exact absurd (hbar.symm.trans (h.head?_mark rfl)) (by decide)

end apart

/-- Behind a sign and a plus there is no position. -/
theorem reads_noPosition_plus (c : Char) (w : List Char) :
    Reads patternGrammar n .tight (.rule nthOp) (c :: '+' :: w) none := by
  have hdigits : Reads patternGrammar n .token (Expr.char Char.isDigit).oneOrMore ('+' :: w) none :=
    .noFirst (.noChar fun x hx => by obtain rfl := Option.some.inj hx; decide)
  have hminus : Reads patternGrammar n .token (.opt (.lit "-")) ('+' :: w)
      (some ('+' :: w, [])) := .noOpt (reads_noText (c := '-') (by simp))
  by_cases hsign : c = '<' ∨ c = '>'
  · have hsign : Reads patternGrammar n .token (.lit "<" ||| .lit ">") (c :: '+' :: w)
        (some ('+' :: w, [])) := by
      rcases hsign with rfl | rfl
      · exact .altLeft (.text rfl)
      · exact .altRight (reads_noText (c := '<') (by simp)) (.text rfl)
    exact .noRule (.noSecond (.next (by decide) hsign hminus) (reads_gap (by decide) _) hdigits)
  · have hno : ∀ {d : Char}, d = '<' ∨ d = '>' → (c :: '+' :: w).head? ≠ some d :=
      fun hd h => hsign (Option.some.inj h ▸ hd)
    exact .noRule (.noFirst (.noFirst (.altRight (reads_noText (hno (.inl rfl)))
      (reads_noText (hno (.inr rfl))))))

/-- What is left of a sign if no chain is read is not what would have made it one. -/
def EndsOperator (u : List Char) : Prop := ¬ ['+', '('] <+: u

theorem endsOperator_of_simpleOp {c : Char} (hc : c = '<' ∨ c = '>') {w : List Char}
    {ps : List Part}
    (h : Reads patternGrammar n k (.rule simpleOp) (c :: '+' :: w) (some (u, ps))) :
    u = '+' :: w := by
  have hbody : Reads patternGrammar n .token (.oneOf relationTokens) (c :: '+' :: w)
      (some ('+' :: w, [])) := by
    have hreads := reads_oneOf (g := patternGrammar) (n := n) (k := .token) relationTokens
      (c :: '+' :: w)
    rcases hc with rfl | rfl
    · have hfind : relationTokens.find? (Text.begins ('<' :: '+' :: w)) = some "<" := rfl
      rwa [hfind] at hreads
    · have hfind : relationTokens.find? (Text.begins ('>' :: '+' :: w)) = some ">" := rfl
      rwa [hfind] at hreads
  cases h with
  | rule h _ _ => exact (Prod.mk.inj (Option.some.inj (hbody.unique h))).1

section apart

variable (hz : SetsApart z)

include hz

/-- No chain is found in front of more text either, if there is no parenthesis behind its
direction. -/
theorem reads_noChain_append (hn : v.length ≤ n)
    (h : ∀ w ∈ ["<+", ">+"], ¬ w.toList ++ ['('] <+: v) :
    Reads patternGrammar (n + z.length) .tight (.rule chainOp) (v ++ z) none := by
  obtain ⟨o, ho⟩ := exists_reads bounds_hold (n := n) .tight (e := .rule chainDirection) (by decide)
    v hn
  have hfurther := reads_settled hz ho rfl
  rcases o with _ | ⟨u, ps⟩
  · exact .noRule (.noFirst (.noFirst (.noFirst hfurther)))
  · refine .noRule (.noFirst (.noFirst (.noSecond hfurther (reads_gap (by decide) _)
      (reads_noMark (c := '(') rfl (head?_append_ne (hz.head_ne (by decide)) ?_)))))
    intro hu
    obtain ⟨u, rfl⟩ := List.head?_eq_some_iff.mp hu
    cases ho with
    | rule hdirection _ _ =>
      obtain ⟨-, w, hw, rfl⟩ := mem_of_reads_oneOf hdirection
      exact h w hw ⟨u, by rw [List.append_assoc]; rfl⟩

theorem kept_relationOp : Kept n z .spaced (.rule relationOp) EndsOperator v := by
  have hlength : ∀ {r : PatternRule} {x : List Char × List Part},
      Reads patternGrammar n .tight (.rule r) v (some x) → v.length ≤ n := by
    intro r x h
    cases h with
    | rule _ _ hi => omega
  have hchain : ∀ {w : String}, w ∈ ["<+", ">+"] → w.toList ++ ['('] <+: v →
      ∃ c u, (c = '<' ∨ c = '>') ∧ v = c :: '+' :: '(' :: u := by
    rintro w hw ⟨u, rfl⟩
    rcases List.mem_cons.mp hw with rfl | hw
    · exact ⟨'<', u, .inl rfl, rfl⟩
    · obtain rfl := List.mem_singleton.mp hw
      exact ⟨'>', u, .inr rfl, rfl⟩
  refine KeptAt.rule_rest ?_
  refine KeptAt.alt (KeptAt.alt ((kept_chainOp hz).mono fun _ _ _ => trivial)
    (kept_settled hz rfl) ?position) (kept_settled hz rfl) ?token
  case position =>
    intro v' ps _ h _
    refine reads_noChain_append hz (hlength h) fun w hw hprefix => ?_
    obtain ⟨c, u, -, rfl⟩ := hchain hw hprefix
    exact absurd ((reads_noPosition_plus c _).unique h) (by simp)
  case token =>
    intro v' ps hno h hv'
    have hchains : Reads patternGrammar (n + z.length) .tight (.rule chainOp) (v ++ z) none := by
      refine reads_noChain_append hz (hlength h) fun w hw hprefix => ?_
      obtain ⟨c, u, hc, rfl⟩ := hchain hw hprefix
      obtain rfl := endsOperator_of_simpleOp hc h
      exact hv' ⟨u, rfl⟩
    cases hno with
    | altRight _ hposition => exact .altRight hchains (reads_settled hz hposition rfl)

end apart

end PatternReader

end Constituency
