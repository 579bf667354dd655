import Constituency.Proofs.Pattern.Descriptions

/-!
# Written relations are read back

A relation is written as a token, as a sign with the position of a child, or as a sign with what
the middle of a chain must look like; a blank follows. No token contains a blank or a digit. So a
token is not taken for a position, and of the tokens that a text begins with the one that was
written is the first in the order in which they are tried (`find_token`).
-/

namespace Constituency

open Grammar PatternRule

namespace PatternReader

variable {n : Nat} {σ : Spelling} {k : Kind} {rest : List Char}

/-! ## Up to a blank -/

/-- A word without blanks that is in front of a text is in front of what stands before the first
blank. -/
theorem prefix_of_blank {v w : List Char} (hv : ' ' ∉ v) (h : v <+: w ++ ' ' :: rest) :
    v <+: w := by
  rcases List.prefix_or_prefix_of_prefix h (List.prefix_append w _) with hprefix | ⟨u, rfl⟩
  · exact hprefix
  · cases u with
    | nil => simp
    | cons c u =>
      obtain ⟨rfl, -⟩ := List.cons_prefix_cons.mp ((List.prefix_append_right_inj w).mp h)
      exact absurd (List.mem_append_right w (List.mem_cons_self ..)) hv

/-- A character that is taken from a word leaves the rest of the word. -/
theorem word_of_reads {x : Char} (hx : x ≠ ' ') {w cs : List Char} {ps : List Part}
    (h : Reads patternGrammar n k (.text [x]) (w ++ ' ' :: rest) (some (cs, ps))) :
    ∃ w', w = x :: w' ∧ cs = w' ++ ' ' :: rest := by
  cases h with
  | text htext =>
    cases w with
    | nil => exact absurd (List.cons.inj htext).1.symm hx
    | cons y w =>
      obtain ⟨rfl, rfl⟩ := List.cons.inj htext
      exact ⟨w, rfl, rfl⟩

theorem reads_noChain {w : List Char} (h : ∀ v ∈ ["<+", ">+"], ¬ v.toList <+: w) :
    Reads patternGrammar n k (.rule chainOp) (w ++ ' ' :: rest) none := by
  refine .noRule (.noFirst (.noFirst (.noFirst (.noRule (reads_noneOf fun v hv hprefix => ?_)))))
  refine h v hv (prefix_of_blank ?_ hprefix)
  rcases List.mem_cons.mp hv with rfl | hv
  · decide
  · obtain rfl := List.mem_singleton.mp hv
    decide

/-- A position has digits. -/
theorem reads_noPosition {w : List Char} (h : ∀ c ∈ w, c.isDigit = false)
    (hn : (w ++ ' ' :: rest).length ≤ n) :
    Reads patternGrammar n k (.rule nthOp) (w ++ ' ' :: rest) none := by
  have hinner : k.inner (patternGrammar.kind nthOp) = .token := rfl
  obtain ⟨o, ho⟩ := exists_reads bounds_hold (n := n) .token
    (e := (.lit "<" ||| .lit ">") ++ .opt (.lit "-")) (by decide) (w ++ ' ' :: rest) hn
  rcases o with _ | ⟨cs, ps⟩
  · exact .noRule (.noFirst ho)
  -- behind the sign and the minus stands what is left of the word, and the blank
  · have hbehind : ∀ {x : Char} {w cs : List Char} {qs : List Part}, x ≠ ' ' →
        (∀ c ∈ w, c.isDigit = false) →
        Reads patternGrammar n .token (.text [x]) (w ++ ' ' :: rest) (some (cs, qs)) →
        ∃ w', cs = w' ++ ' ' :: rest ∧ ∀ c ∈ w', c.isDigit = false := by
      intro x w cs qs hx hw hreads
      obtain ⟨w', rfl, rfl⟩ := word_of_reads hx hreads
      exact ⟨w', rfl, fun c hc => hw c (List.mem_cons_of_mem x hc)⟩
    have hleft : ∃ w', cs = w' ++ ' ' :: rest ∧ ∀ c ∈ w', c.isDigit = false := by
      cases ho with
      | @seq _ _ _ _ cs₁ cs₂ _ _ _ _ hsign hgap hminus =>
        obtain ⟨rfl, -⟩ := Prod.mk.inj (Option.some.inj ((reads_gap (by decide) _).unique hgap))
        obtain ⟨w', rfl, hw'⟩ : ∃ w', cs₂ = w' ++ ' ' :: rest ∧ ∀ c ∈ w', c.isDigit = false := by
          cases hsign with
          | altLeft hless => exact hbehind (x := '<') (by decide) h hless
          | altRight _ hgreater => exact hbehind (x := '>') (by decide) h hgreater
        cases hminus with
        | noOpt => exact ⟨w', rfl, hw'⟩
        | opt hminus => exact hbehind (x := '-') (by decide) hw' hminus
    obtain ⟨w', rfl, hw'⟩ := hleft
    refine .noRule (.noSecond ho (reads_gap (hinner ▸ by decide) _)
      (.noFirst (.noChar fun c hc => ?_)))
    cases w' with
    | nil =>
      obtain rfl := Option.some.inj hc
      decide
    | cons x w' =>
      obtain rfl := Option.some.inj hc
      exact hw' x (List.mem_cons_self ..)

/-! ## Relations without arguments -/

theorem mem_relationTokens {t : String} {r : Relation} (h : Relation.ofToken? t = some r) :
    t ∈ relationTokens := by
  unfold Relation.ofToken? at h
  split at h <;> first | decide | exact absurd h (by simp)

/-- Tokens contain neither blanks nor digits. -/
theorem relationTokens_chars : ∀ t ∈ relationTokens,
    (t.toList.all fun c => c != ' ' && !c.isDigit) = true := by decide

/-- No token begins a chain. -/
theorem relationTokens_noChain : ∀ t ∈ relationTokens, ∀ v ∈ ["<+", ">+"],
    Text.begins t.toList v = false := by decide

/-- Of the tokens that a token begins with it is the one that is tried first. -/
theorem find_token : ∀ t ∈ relationTokens,
    relationTokens.find? (Text.begins t.toList) = some t := by decide

theorem blank_not_mem {t : String} (ht : t ∈ relationTokens) : ' ' ∉ t.toList := by
  intro hblank
  have hchar := List.all_eq_true.mp (relationTokens_chars t ht) ' ' hblank
  exact absurd hchar (by decide)

/-- What tokens begin with. -/
theorem head?_token : ∀ t ∈ relationTokens,
    (['<', '>', '$', '.', ',', '='].any fun c => t.toList.head? == some c) = true := by decide

/-- A token is taken as a whole. -/
theorem reads_simpleOp {t : String} (ht : t ∈ relationTokens) :
    Reads patternGrammar n .token (.oneOf relationTokens) (t.toList ++ ' ' :: rest)
      (some (' ' :: rest, [])) := by
  have hfind : relationTokens.find? (Text.begins (t.toList ++ ' ' :: rest)) = some t := by
    obtain ⟨-, before, after, htokens, hbefore⟩ :=
      List.find?_eq_some_iff_append.mp (find_token t ht)
    refine List.find?_eq_some_iff_append.mpr
      ⟨Text.begins_iff.mpr (List.prefix_append ..), before, after, htokens, fun v hv => ?_⟩
    -- a token tried before that is there would be there without the blank
    have hv' : v ∈ relationTokens := by
      rw [htokens]
      exact List.mem_append_left _ hv
    have hnot := hbefore v hv
    rw [Bool.not_eq_true', Bool.eq_false_iff, ne_eq, Text.begins_iff] at hnot ⊢
    exact fun h => hnot (prefix_of_blank (blank_not_mem hv') h)
  have hreads := reads_oneOf (g := patternGrammar) (n := n) (k := .token) relationTokens
    (t.toList ++ ' ' :: rest)
  rw [hfind, Option.map_some, List.drop_left] at hreads
  exact hreads

/-- A part for a relation, as it is read and as its names are mentioned. -/
structure IsRelation (σ : Spelling) (p : Part) (r : Relation) : Prop where
  read : ∀ s, relationOf s p = .ok (r.rename (s.numbering σ))
  keys : ∀ b, (mentions b p).map Mention.key =
    (Occurrence.references b r.references).map (Occurrence.key σ)

theorem reads_token {t : String} {r : Relation} (h : Relation.ofToken? t = some r)
    (hn : (t.toList ++ ' ' :: rest).length ≤ n) :
    ∃ p, Reads patternGrammar n .spaced (.rule relationOp) (t.toList ++ ' ' :: rest)
      (some (' ' :: rest, [p])) ∧ (∀ s, relationOf s p = .ok r) ∧ ∀ b, mentions b p = [] := by
  have ht := mem_relationTokens h
  have hchain : Reads patternGrammar n .tight (.rule chainOp) (t.toList ++ ' ' :: rest) none :=
    reads_noChain fun v hv hprefix =>
      absurd (Text.begins_iff.mpr hprefix) (by simp [relationTokens_noChain t ht v hv])
  have hposition : Reads patternGrammar n .tight (.rule nthOp) (t.toList ++ ' ' :: rest) none := by
    refine reads_noPosition (fun c hc => ?_) hn
    have hchar := List.all_eq_true.mp (relationTokens_chars t ht) c hc
    simpa using (Bool.and_eq_true_iff.mp hchar).2
  obtain ⟨i, hsimple⟩ := reads_node (k := .tight) (r := simpleOp) (by decide)
    (reads_simpleOp ht) hn
  have hbody : Reads patternGrammar n .tight (body relationOp) (t.toList ++ ' ' :: rest)
      (some (' ' :: rest, _)) := .altRight (.altRight hchain hposition) hsimple
  obtain ⟨j, hop⟩ := reads_node (k := .spaced) (r := relationOp) (by decide) hbody hn
  refine ⟨_, hop, fun s => ?_, fun b => rfl⟩
  unfold relationOf
  dsimp only [Parse.parts]
  rw [String.ofList_toList, h]

/-! ## Positions -/

theorem position_chars {i : Int} {c : Char} (h : c ∈ (toString i).toList) :
    c = '-' ∨ c.isDigit = true := by
  rw [toList_position] at h
  rcases List.mem_append.mp h with h | h
  · by_cases hi : i < 0
    · rw [if_pos hi] at h
      exact .inl (List.mem_singleton.mp h)
    · rw [if_neg hi] at h
      exact absurd h List.not_mem_nil
  · exact .inr (Nat.isDigit_of_mem_toDigits (by decide) (by decide) h)

theorem reads_nthOp {c : Char} (hc : c = '<' ∨ c = '>') (i : Int) :
    Reads patternGrammar n .token (body nthOp) (c :: (toString i).toList ++ ' ' :: rest)
      (some (' ' :: rest, [])) := by
  have hsign : ∀ cs, Reads patternGrammar n .token (.lit "<" ||| .lit ">") (c :: cs)
      (some (cs, [])) := by
    intro cs
    rcases hc with rfl | rfl
    · exact .altLeft (.text rfl)
    · exact .altRight (reads_noText (c := '<') (by simp)) (.text rfl)
  have hne : Nat.toDigits 10 i.natAbs ≠ [] := Nat.toDigits_ne_nil
  have hall : ∀ c ∈ Nat.toDigits 10 i.natAbs, c.isDigit = true :=
    fun c hc => Nat.isDigit_of_mem_toDigits (by decide) (by decide) hc
  have hdigits : Reads patternGrammar n .token (Expr.char Char.isDigit).oneOrMore
      (Nat.toDigits 10 i.natAbs ++ ' ' :: rest) (some (' ' :: rest, [])) := by
    refine reads_run (by decide) hne hall fun x hx => ?_
    obtain rfl := Option.some.inj hx
    decide
  have hminus : Reads patternGrammar n .token (.opt (.lit "-"))
      ((toString i).toList ++ ' ' :: rest)
      (some (Nat.toDigits 10 i.natAbs ++ ' ' :: rest, [])) := by
    rw [toList_position]
    by_cases hi : i < 0
    · rw [if_pos hi]
      exact .opt (.text rfl)
    · rw [if_neg hi, List.nil_append]
      refine .noOpt (reads_noText (c := '-') fun hhead => ?_)
      -- the digits do not begin with the sign
      obtain ⟨d, ds, hds⟩ := List.exists_cons_of_ne_nil hne
      have hd : d.isDigit = true := hall d (by rw [hds]; exact List.mem_cons_self ..)
      rw [hds] at hhead
      obtain rfl := Option.some.inj hhead
      exact absurd hd (by decide)
  exact .next (by decide) (.next (by decide) (hsign _) hminus) hdigits

theorem reads_position {c : Char} (hc : c = '<' ∨ c = '>') (i : Int)
    (hn : (c :: (toString i).toList ++ ' ' :: rest).length ≤ n) :
    ∃ j m, Reads patternGrammar n .spaced (.rule relationOp)
      (c :: (toString i).toList ++ ' ' :: rest) (some (' ' :: rest,
        [.node relationOp m (c :: (toString i).toList)
          [.node nthOp j (c :: (toString i).toList) []]])) := by
  -- no plus stands behind the sign
  have hchain : Reads patternGrammar n .tight (.rule chainOp)
      (c :: (toString i).toList ++ ' ' :: rest) none := by
    refine reads_noChain fun v hv hprefix => ?_
    have hplus : '+' ∈ (toString i).toList := by
      have hv' : v.toList = ['<', '+'] ∨ v.toList = ['>', '+'] := by
        rcases List.mem_cons.mp hv with rfl | hv
        · exact .inl (by decide)
        · exact .inr (by rw [List.mem_singleton.mp hv]; decide)
      rcases hv' with hv' | hv'
      all_goals
        rw [hv'] at hprefix
        exact (List.cons_prefix_cons.mp hprefix).2.subset (List.mem_cons_self ..)
    rcases position_chars hplus with h | h
    · exact absurd h (by decide)
    · exact absurd h (by decide)
  obtain ⟨j, hnth⟩ := reads_node (k := .tight) (r := nthOp) (by decide) (reads_nthOp hc i) hn
  have hbody : Reads patternGrammar n .tight (body relationOp)
      (c :: (toString i).toList ++ ' ' :: rest) (some (' ' :: rest, _)) :=
    .altLeft (.altRight hchain hnth)
  obtain ⟨m, hop⟩ := reads_node (k := .spaced) (r := relationOp) (by decide) hbody hn
  exact ⟨j, m, hop⟩

theorem childPosition_eq {c : Char} {i : Int} (hzero : i ≠ 0) (hfits : Text.fitsInt32 i = true)
    (s : Source) (j : Nat) :
    childPosition s (.node nthOp j (c :: (toString i).toList) []) = .ok i := by
  unfold childPosition
  rw [show (Parse.text (.node nthOp j (c :: (toString i).toList) [])).drop 1 =
    (toString i).toList from rfl, signedDecimal?_toString]
  simp [hfits, hzero]

/-! ## Chains -/

theorem reads_chain {c : Char} (hc : c = '<' ∨ c = '>') {d : Description} (hd : d.test.Writable)
    (hname : ∀ u ∈ d.test.references, Text.isName (σ.name u).toList = true)
    (hn : (c :: '+' :: '(' :: (d.written σ none ++ [')']) ++ rest).length ≤ n) :
    ∃ j m l p, Reads patternGrammar n .spaced (.rule relationOp)
      (c :: '+' :: '(' :: (d.written σ none ++ [')']) ++ rest) (some (rest,
        [.node relationOp m (c :: '+' :: '(' :: (d.written σ none ++ [')']))
          [.node chainOp j (c :: '+' :: '(' :: (d.written σ none ++ [')']))
            [.node chainDirection l [c, '+'] [], p]]])) ∧ IsDescription σ p d none := by
  -- the sign and the plus are the direction; the description ends at the parenthesis
  have htext : c :: '+' :: '(' :: (d.written σ none ++ [')']) ++ rest =
      [c, '+'] ++ '(' :: (d.written σ none ++ ')' :: rest) := by simp
  have hn' := hn
  rw [htext] at hn'
  have hinside : (d.written σ none ++ ')' :: rest).length ≤ n := by
    have hlater := length_later hn'
    rw [List.length_cons] at hlater
    omega
  have hdirection : Reads patternGrammar n .tight (body chainDirection)
      ([c, '+'] ++ '(' :: (d.written σ none ++ ')' :: rest))
      (some ('(' :: (d.written σ none ++ ')' :: rest), [])) := by
    rcases hc with rfl | rfl
    · exact .altLeft (.text rfl)
    · exact .altRight (reads_noText (c := '<') (by simp)) (.text rfl)
  obtain ⟨l, hdirection⟩ := reads_node (k := .tight) (r := chainDirection) (by decide)
    hdirection hn'
  have hclosing : EndsDescription (')' :: rest) := fun x hx => .inr (Option.some.inj hx).symm
  obtain ⟨p, hp, hdescription⟩ := reads_description (k := .tight) (by decide) (v := none) hd
    (by simpa using hname) hclosing hinside
  have hbody : Reads patternGrammar n .tight (body chainOp)
      (c :: '+' :: '(' :: (d.written σ none ++ [')']) ++ rest)
      (some (rest, [.node chainDirection l [c, '+'] [], p])) := by
    rw [htext]
    exact .next (by decide) (.next (by decide) (.next (by decide) hdirection (.text rfl)) hp)
      (.text rfl)
  obtain ⟨j, hchain⟩ := reads_node (k := .tight) (r := chainOp) (by decide) hbody hn
  have hbody : Reads patternGrammar n .tight (body relationOp)
      (c :: '+' :: '(' :: (d.written σ none ++ [')']) ++ rest) (some (rest, _)) :=
    .altLeft (.altLeft hchain)
  obtain ⟨m, hop⟩ := reads_node (k := .spaced) (r := relationOp) (by decide) hbody hn
  exact ⟨j, m, l, p, hop, hdescription⟩

/-- The names in the middle of a chain are those that the relation mentions. -/
theorem keys_of_chain {p : Part} {d : Description} (h : IsDescription σ p d none) (b : Bool)
    {j l m : Nat} {u v w : List Char} :
    (mentions b (.node relationOp m u [.node chainOp j v [.node chainDirection l w [], p]])).map
      Mention.key = (Occurrence.references b d.test.references).map (Occurrence.key σ) := by
  rw [mentions_of_isTransparent rfl, List.flatMap_singleton, mentions_of_isTransparent rfl,
    List.flatMap_cons, mentions_of_isTransparent rfl, List.flatMap_nil, List.nil_append,
    List.flatMap_singleton, h.keys, Occurrence.capture, Option.toList_none, List.map_nil,
    List.append_nil]

/-- What a relation begins with. -/
theorem head?_relation {r : Relation} (hr : r.Writable) :
    ∃ c ∈ ['<', '>', '$', '.', ',', '='], ∀ cs : List Char,
      (r.written σ ++ cs).head? = some c := by
  have htoken : ∀ {t : String}, Relation.ofToken? t = some r →
      ∃ c ∈ ['<', '>', '$', '.', ',', '='], ∀ cs : List Char, (t.toList ++ cs).head? = some c := by
    intro t ht
    obtain ⟨c, hc, hhead⟩ := List.any_eq_true.mp (head?_token t (mem_relationTokens ht))
    obtain ⟨w, hw⟩ := List.head?_eq_some_iff.mp (beq_iff_eq.mp hhead)
    exact ⟨c, hc, fun cs => by rw [hw]; rfl⟩
  cases r with
  | nthChild | dominatesVia => exact ⟨'<', by decide, fun cs => rfl⟩
  | nthChildOf | dominatedByVia => exact ⟨'>', by decide, fun cs => rfl⟩
  | _ => exact htoken (σ.isToken _ rfl)

/-- **A relation is read back.** -/
theorem reads_relationOp {r : Relation} (hr : r.Writable)
    (hname : ∀ u ∈ r.references, Text.isName (σ.name u).toList = true)
    (hn : (r.written σ ++ ' ' :: rest).length ≤ n) :
    ∃ p, Reads patternGrammar n .spaced (.rule relationOp) (r.written σ ++ ' ' :: rest)
      (some (' ' :: rest, [p])) ∧ IsRelation σ p r := by
  cases r with
  | nthChild i =>
    obtain ⟨j, m, hop⟩ := reads_position (.inl rfl) i hn
    refine ⟨_, hop, fun s => ?_, fun b => rfl⟩
    exact bind_eq_ok.mpr ⟨i, childPosition_eq hr.1 hr.2 s j, rfl⟩
  | nthChildOf i =>
    obtain ⟨j, m, hop⟩ := reads_position (.inr rfl) i hn
    refine ⟨_, hop, fun s => ?_, fun b => rfl⟩
    exact bind_eq_ok.mpr ⟨i, childPosition_eq hr.1 hr.2 s j, rfl⟩
  | dominatesVia d =>
    obtain ⟨j, m, l, p, hop, hdescription⟩ := reads_chain (.inl rfl) hr hname hn
    refine ⟨_, hop, fun s => ?_, fun b => keys_of_chain hdescription b⟩
    exact bind_eq_ok.mpr ⟨_, hdescription.read s, rfl⟩
  | dominatedByVia d =>
    obtain ⟨j, m, l, p, hop, hdescription⟩ := reads_chain (.inr rfl) hr hname hn
    refine ⟨_, hop, fun s => ?_, fun b => keys_of_chain hdescription b⟩
    exact bind_eq_ok.mpr ⟨_, hdescription.read s, rfl⟩
  | _ =>
    obtain ⟨p, hop, hread, hmentions⟩ := reads_token (σ.isToken _ rfl) hn
    exact ⟨p, hop, hread, fun b => by rw [hmentions]; rfl⟩

end PatternReader

end Constituency
