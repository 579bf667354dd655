import Constituency.Pattern.Grammar
import Constituency.Proofs.Grammar.Bounds
import Constituency.Proofs.Grammar.Tokens
import Constituency.Proofs.Pattern.Writing
import Constituency.Proofs.Text.Chars

/-!
# The tokens of patterns

The grammar of patterns stays within bounds, so what its recognizer comes to is what it reads
(`PatternRule.bounds_hold`). Names, digits and blanks are runs of characters of one kind, which end
where another kind begins. A quoted label ends at the first quotation mark that no backslash lets
through; written with its backslashes and quotation marks escaped it is read as it was
(`reads_quoted`, `unquote_escape`).
-/

namespace Constituency

open Grammar

theorem Text.unescaped_escape (l rest : List Char) :
    unescaped '"' ('"' == ·) (escape l ++ '"' :: rest) = '"' :: rest := by
  induction l with
  | nil => rfl
  | cons c l ih =>
    rw [escape]
    split
    · rename_i hc
      rw [List.cons_append, List.cons_append, unescaped, if_pos (by simpa using hc), ih]
    · rename_i hc
      simp only [Bool.or_eq_true, beq_iff_eq, not_or] at hc
      rw [List.cons_append, unescaped_plain hc.1, if_neg (by simpa using Ne.symm hc.2), ih]

/-- A text is read as it is written in quotation marks, by a rule for such texts and one for what is
between the marks. -/
theorem Grammar.reads_quotedText {R : Type} {g : Grammar R} {n : Nat} {k : Kind} {quoted inside : R}
    {rest : List Char} (hk : k ≠ .token) (hquoted : g.kind quoted = .tight)
    (hinside : g.kind inside = .token)
    (hbody : g.body quoted = .seq (.seq (.lit "\"") (.rule inside)) (.lit "\""))
    (hparts : g.body inside = .many (bodyPart '"' (.lit "\""))) (l : List Char)
    (hn : (Text.quote l ++ rest).length ≤ n) :
    ∃ i j, Reads g n k (.rule quoted) (Text.quote l ++ rest)
      (some (rest, [.node quoted i (Text.quote l) [.node inside j (Text.escape l) []]])) := by
  have htext : Text.quote l ++ rest = '"' :: (Text.escape l ++ '"' :: rest) := by
    rw [Text.quote, List.cons_append, List.append_assoc]
    rfl
  have hlength : (Text.escape l ++ '"' :: rest).length ≤ n := by
    rw [htext, List.length_cons] at hn
    omega
  have hend : Reads g n .token (g.body inside) (Text.escape l ++ '"' :: rest)
      (some (Text.unescaped '"' ('"' == ·) (Text.escape l ++ '"' :: rest), [])) := by
    rw [hparts]
    exact reads_body (by decide) rfl rfl _
  rw [Text.unescaped_escape] at hend
  obtain ⟨j, htight⟩ := reads_node (k := .tight) (r := inside) (by decide)
    (by rw [hinside]; exact hend) hlength
  have hmarks : Reads g n .tight (g.body quoted) (Text.quote l ++ rest)
      (some (rest, [.node inside j (Text.escape l) []])) := by
    rw [htext, hbody]
    exact .next (by decide) (.next (by decide) (.text rfl) htight) (.text rfl)
  have hinner : k.inner (g.kind quoted) = .tight := by
    rw [hquoted]
    cases k <;> rfl
  obtain ⟨i, hrule⟩ := reads_node (r := quoted) hk (hinner ▸ hmarks) hn
  exact ⟨i, j, hrule⟩

namespace PatternRule

/-- What is claimed of the rules of patterns, to bound how deep calls nest. -/
def bounds : Bounds PatternRule where
  takes
    | endOfText | pattern | regexBody | quotedBody => false
    | _ => true
  depth
    | disjunction => 54
    | conjunction => 50
    | term => 46
    | relation => 40
    | relationOp => 37
    | simpleOp => 34
    | nodeExpr => 28
    | description => 24
    | labelTest => 20
    | alternatives => 16
    | atom => 12
    | chainOp => 12
    | _ => 8
  inner r := r != pattern
  limit := 60

theorem bounds_hold : bounds.Hold patternGrammar where
  takes r := by cases r <;> decide
  depth r := by cases r <;> decide
  bounded r := by cases r <;> decide
  space := by decide
  limit := by decide

variable {n : Nat} {k : Kind} {cs w rest : List Char}

theorem length_later {v : List Char} (h : (w ++ v).length ≤ n) : v.length ≤ n := by
  rw [List.length_append] at h
  omega

/-- What is left of a text after blanks. -/
def afterBlanks (cs : List Char) : List Char := cs.dropWhile blanks.contains

theorem reads_blanks (cs : List Char) :
    Reads patternGrammar n .token (patternGrammar.gap .spaced) cs (some (afterBlanks cs, [])) :=
  .opt (reads_span (by decide) (fun _ _ h => .char h) (fun _ h => .noChar h) cs)

theorem afterBlanks_eq (h : ∀ c ∈ cs.head?, blanks.contains c = false) : afterBlanks cs = cs :=
  dropWhile_append (w := []) (fun _ hc => absurd hc List.not_mem_nil) h

theorem afterBlanks_idem (cs : List Char) : afterBlanks (afterBlanks cs) = afterBlanks cs := by
  refine afterBlanks_eq fun c hc => ?_
  have hhead := List.head?_dropWhile_not blanks.contains cs
  rw [show (cs.dropWhile blanks.contains).head? = some c from hc] at hhead
  simpa using hhead

/-- Outside tokens blanks are skipped between the parts of a sequence. -/
theorem reads_spaced {a e : Expr PatternRule} {cs₁ cs₂ cs' : List Char}
    {ps qs : List (Parse PatternRule)}
    (h : Reads patternGrammar n .spaced a cs (some (cs₁, ps))) (hblanks : afterBlanks cs₁ = cs₂)
    (hsecond : Reads patternGrammar n .spaced e cs₂ (some (cs', qs))) :
    Reads patternGrammar n .spaced (.seq a e) cs (some (cs', ps ++ qs)) :=
  .seq h (reads_blanks cs₁) (hblanks ▸ hsecond)

theorem reads_name (hw : Text.isName w = true) (hrest : ∀ c ∈ rest.head?, Text.isNameChar c = false)
    (hn : (w ++ rest).length ≤ n) :
    ∃ i, Reads patternGrammar n .tight (.rule name) (w ++ rest)
      (some (rest, [.node name i w []])) := by
  obtain ⟨hne, hall⟩ := Bool.and_eq_true_iff.mp hw
  exact reads_node (by decide) (reads_run (by decide) (by simpa using hne)
    (List.all_eq_true.mp hall) hrest) hn

/-! ## Quoted labels -/

theorem reads_quoted (l : List Char) (hn : (Text.quote l ++ rest).length ≤ n) :
    ∃ i j, Reads patternGrammar n .tight (.rule quoted) (Text.quote l ++ rest)
      (some (rest, [.node quoted i (Text.quote l) [.node quotedBody j (Text.escape l) []]])) :=
  reads_quotedText (by decide) rfl rfl rfl rfl l hn

/-- Where there is no pair to be replaced the next character stays. -/
theorem replacePair_cons {a b c x : Char} (h : x = a → cs.head? ≠ some b) :
    Text.replacePair a b c (x :: cs) = x :: Text.replacePair a b c cs := by
  cases cs with
  | nil => rfl
  | cons y cs =>
    rw [Text.replacePair, if_neg]
    intro hpair
    simp only [Bool.and_eq_true, beq_iff_eq] at hpair
    exact h hpair.1 (congrArg some hpair.2)

theorem head?_escape (l : List Char) : (Text.escape l).head? ≠ some '"' := by
  cases l with
  | nil => simp [Text.escape]
  | cons c l =>
    rw [Text.escape]
    split
    · simp
    · rename_i hc
      simp only [Bool.or_eq_true, beq_iff_eq, not_or] at hc
      simpa using hc.2

/-- **A quoted text is read back.** -/
theorem unquote_escape (l : List Char) : Text.unquote (Text.escape l) = l := by
  -- backslashes are still doubled when the quotation marks have been read
  have hquotes : ∀ l : List Char, Text.replacePair '\\' '"' '"' (Text.escape l) =
      l.flatMap fun c => if c == '\\' then ['\\', '\\'] else [c] := by
    intro l
    induction l with
    | nil => rfl
    | cons c l ih =>
      rw [Text.escape, List.flatMap_cons]
      by_cases hbackslash : c = '\\'
      · subst hbackslash
        rw [if_pos (by decide), if_pos (by decide), replacePair_cons (by simp),
          replacePair_cons fun _ => head?_escape l, ih]
        rfl
      · have hsingle : (if c == '\\' then ['\\', '\\'] else [c]) = [c] :=
          if_neg (by simpa using hbackslash)
        rw [hsingle]
        by_cases hquote : c = '"'
        · subst hquote
          rw [if_pos (by decide), Text.replacePair, if_pos (by decide), ih]
          rfl
        · rw [if_neg (by simp [hbackslash, hquote]), replacePair_cons (by simp [hbackslash]), ih]
          rfl
  rw [Text.unquote, hquotes]
  induction l with
  | nil => rfl
  | cons c l ih =>
    rw [List.flatMap_cons]
    by_cases hbackslash : c = '\\'
    · subst hbackslash
      rw [if_pos (by decide), List.cons_append, List.cons_append, Text.replacePair,
        if_pos (by decide), List.nil_append, ih]
    · rw [if_neg (by simpa using hbackslash), List.singleton_append,
        replacePair_cons (by simp [hbackslash]), ih]

/-! ## Positions -/

/-- A position is written with its digits behind its sign. -/
theorem toList_position (i : Int) : (toString i).toList =
    (if i < 0 then ['-'] else []) ++ Nat.toDigits 10 i.natAbs := by
  show i.repr.toList = _
  rw [Int.repr_eq_if]
  by_cases hi : 0 ≤ i
  · have hnat : i.toNat = i.natAbs := by omega
    rw [if_pos hi, if_neg (by omega), Nat.repr_eq_ofList_toDigits, String.toList_ofList, hnat]
    rfl
  · have hnat : (-i).toNat = i.natAbs := by omega
    rw [if_neg hi, if_pos (by omega), String.toList_append, Nat.repr_eq_ofList_toDigits, hnat,
      String.toList_ofList, String.toList_ofList]

theorem signedDecimal?_toString (i : Int) : Text.signedDecimal? (toString i).toList = some i := by
  have hvalue := Text.decimalValue_toDigits i.natAbs
  have hdecimal := Text.isDecimal_toDigits i.natAbs
  rw [toList_position]
  by_cases hi : i < 0
  · rw [if_pos hi, List.singleton_append, Text.signedDecimal?, if_pos hdecimal, hvalue]
    exact congrArg some (by omega)
  · rw [if_neg hi, List.nil_append, Text.signedDecimal?, if_pos hdecimal, hvalue]
    · exact congrArg some (by omega)
    · intro cs hcs
      rw [hcs] at hdecimal
      exact absurd hdecimal (by simp [Text.isDecimal])

end PatternRule

end Constituency
