import Constituency.Proofs.Surgery.Tokens

/-!
# Between operations

Inside a line, blanks and a comment are skipped; line ends and semicolons separate operations. What
stands between two operations is any mixture of these, and it ends at the first character that is
none of them and not in a comment (`Script.nextOperation`).
-/

namespace Constituency

open Grammar ScriptRule

namespace Script

/-- A blank inside a line. -/
def isBlank (c : Char) : Bool := c == ' ' || c == '\t'

/-- A line end. -/
def isLineEnd (c : Char) : Bool := c == '\n' || c == '\r'

/-- The beginning of what separates operations. -/
def isSeparator (c : Char) : Bool := isLineEnd c || c == ';'

/-- What is left of a text after blanks and a comment. -/
def afterSpace (cs : List Char) : List Char :=
  match cs.dropWhile isBlank with
  | '%' :: rest => rest.dropWhile (!isLineEnd ·)
  | rest => rest

/-- The text from the next operation on; `inComment` says whether it begins inside a comment. -/
def nextFrom : Bool → List Char → List Char
  | _, [] => []
  | true, c :: cs => nextFrom (!isLineEnd c) cs
  | false, c :: cs =>
    if isBlank c || isSeparator c then nextFrom false cs
    else if c == '%' then nextFrom true cs else c :: cs

/-- The text from the next operation on. -/
def nextOperation (cs : List Char) : List Char := nextFrom false cs

/-- A text that begins with no blank and no comment. -/
def Spaceless (cs : List Char) : Prop := ∀ c ∈ cs.head?, isBlank c = false ∧ c ≠ '%'

/-- A text that is empty or begins with a separator. -/
def AtSeparator (cs : List Char) : Prop := ∀ c ∈ cs.head?, isSeparator c = true

theorem isSeparator_spaceless {c : Char} (h : isSeparator c = true) :
    isBlank c = false ∧ c ≠ '%' := by
  simp only [isSeparator, isLineEnd, Bool.or_eq_true, beq_iff_eq] at h
  rcases h with (rfl | rfl) | rfl <;> decide

theorem afterSpace_of_spaceless {cs : List Char} (h : Spaceless cs) : afterSpace cs = cs := by
  cases cs with
  | nil => rfl
  | cons c cs =>
    obtain ⟨hblank, hcomment⟩ := h c rfl
    rw [afterSpace, List.dropWhile_cons_of_neg (by simp [hblank])]
    split
    · rename_i heq
      exact absurd (List.cons.inj heq).1 hcomment
    · rfl

/-- Where a comment ends, nothing more is skipped. -/
theorem spaceless_of_comment (cs : List Char) : Spaceless (cs.dropWhile (!isLineEnd ·)) := by
  intro c hc
  have hend := List.head?_dropWhile_not (fun c => !isLineEnd c) cs
  rw [hc] at hend
  have hend : isLineEnd c = true := by simpa using hend
  exact isSeparator_spaceless (by rw [isSeparator, hend, Bool.true_or])

theorem spaceless_afterSpace (cs : List Char) : Spaceless (afterSpace cs) := by
  intro c hc
  unfold afterSpace at hc
  split at hc
  · exact spaceless_of_comment _ c hc
  · rename_i hno
    have hhead := List.head?_dropWhile_not isBlank cs
    rw [hc] at hhead
    refine ⟨by simpa using hhead, ?_⟩
    rintro rfl
    obtain ⟨rest, hrest⟩ := List.head?_eq_some_iff.mp hc
    exact hno rest hrest

theorem nextFrom_true (cs : List Char) :
    nextFrom true cs = nextFrom false (cs.dropWhile (!isLineEnd ·)) := by
  induction cs with
  | nil => rfl
  | cons c cs ih =>
    by_cases hc : isLineEnd c = true
    · have hsep : (isBlank c || isSeparator c) = true := by simp [isSeparator, hc]
      rw [List.dropWhile_cons_of_neg (by simp [hc]), nextFrom, nextFrom, if_pos hsep, hc]
      rfl
    · have hfalse : isLineEnd c = false := by simpa using hc
      rw [List.dropWhile_cons_of_pos (by simp [hfalse]), nextFrom, hfalse]
      exact ih

theorem nextOperation_afterSpace (cs : List Char) :
    nextOperation (afterSpace cs) = nextOperation cs := by
  have hblanks : nextOperation cs = nextOperation (cs.dropWhile isBlank) := by
    induction cs with
    | nil => rfl
    | cons c cs ih =>
      by_cases hc : isBlank c = true
      · rw [List.dropWhile_cons_of_pos hc, ← ih]
        exact if_pos (by rw [hc, Bool.true_or])
      · rw [List.dropWhile_cons_of_neg hc]
  rw [hblanks, afterSpace]
  split
  · rename_i rest heq
    rw [heq]
    exact (nextFrom_true rest).symm
  · rfl

/-- The next operation is at no separator. -/
theorem nextFrom_head (b : Bool) (cs : List Char) :
    ∀ c ∈ (nextFrom b cs).head?, isBlank c = false ∧ c ≠ '%' ∧ isSeparator c = false := by
  induction cs generalizing b with
  | nil => cases b <;> exact fun c hc => absurd hc (by simp [nextFrom])
  | cons c cs ih =>
    cases b with
    | true => exact ih _
    | false =>
      rw [nextFrom]
      split
      · exact ih _
      · rename_i hno
        split
        · exact ih _
        · rename_i hcomment
          intro x hx
          obtain rfl := Option.some.inj hx
          simp only [Bool.or_eq_true, not_or, Bool.not_eq_true, beq_iff_eq] at hno hcomment
          exact ⟨hno.1, hcomment, hno.2⟩

theorem nextFrom_suffix (b : Bool) (cs : List Char) : nextFrom b cs <:+ cs := by
  induction cs generalizing b with
  | nil => cases b <;> exact List.suffix_rfl
  | cons c cs ih =>
    cases b with
    | true => exact (ih _).trans (List.suffix_cons c cs)
    | false =>
      rw [nextFrom]
      split
      · exact (ih _).trans (List.suffix_cons c cs)
      · split
        · exact (ih _).trans (List.suffix_cons c cs)
        · exact List.suffix_rfl

theorem nextOperation_of_separator {c : Char} (hc : isSeparator c = true) (cs : List Char) :
    nextOperation (c :: cs) = nextOperation cs :=
  if_pos (by rw [hc, Bool.or_true])

/-- A text without blanks, a comment and separators in front begins with an operation. -/
theorem nextOperation_of_spaceless {cs : List Char} (h : Spaceless cs)
    (hsep : ∀ c ∈ cs.head?, isSeparator c = false) : nextOperation cs = cs := by
  cases cs with
  | nil => rfl
  | cons c cs =>
    obtain ⟨hblank, hcomment⟩ := h c rfl
    have hsep := hsep c rfl
    rw [nextOperation, nextFrom, if_neg (by simp [hblank, hsep]), if_neg (by simpa using hcomment)]

/-- Behind a line end a text is read from its beginning on, if there was no operation before. -/
theorem nextFrom_append (b : Bool) (cs w : List Char) :
    nextFrom b (cs ++ '\n' :: w) =
      if (nextFrom b cs).isEmpty then nextOperation w else nextFrom b cs ++ '\n' :: w := by
  induction cs generalizing b with
  | nil => cases b <;> rfl
  | cons c cs ih =>
    cases b with
    | true =>
      rw [List.cons_append, nextFrom, ih]
      rfl
    | false =>
      rw [List.cons_append, nextFrom, nextFrom]
      split
      · exact ih _
      · split
        · exact ih _
        · rfl

/-! ## What the grammar skips -/

variable {n : Nat}

theorem reads_newline {k : Kind} (hk : k ≠ .spaced) (cs : List Char) :
    Reads scriptGrammar n k (.many (.seq (.absent .newline) .anyChar)) cs
      (some (cs.dropWhile (!isLineEnd ·), [])) := by
  have hbyHead : (Expr.newline : Expr ScriptRule).byHead = true := rfl
  have hheads : ∀ c, (Expr.newline : Expr ScriptRule).heads c = isLineEnd c := by
    intro c
    show ('\n' == c || (false || '\r' == c)) = (c == '\n' || c == '\r')
    rw [Bool.false_or, BEq.comm, BEq.comm (a := '\r')]
  refine reads_span hk (fun c cs hc => ?_) (fun cs hcs => ?_) cs
  · exact reads_unless hk hbyHead (by rw [hheads]; simpa using hc) cs
  · exact reads_no_unless hk hbyHead fun c hc => by rw [hheads]; simpa using hcs c hc

theorem reads_blanks (cs : List Char) :
    Reads scriptGrammar n .token (.many ScriptRule.blank) cs (some (cs.dropWhile isBlank, [])) := by
  have hblank : ∀ c, [' ', '\t'].contains c = isBlank c := by
    intro c
    rw [Bool.eq_iff_iff]
    simp [isBlank]
  refine reads_span (by decide) (fun c cs hc => .char ?_) (fun cs hcs => .noChar fun c hc => ?_) cs
  · exact (hblank c).trans hc
  · exact (hblank c).trans (hcs c hc)

/-- **Blanks and a comment are skipped.** -/
theorem reads_space (cs : List Char) :
    Reads scriptGrammar n .token (scriptGrammar.gap .spaced) cs (some (afterSpace cs, [])) := by
  have hgap : ∀ cs, Reads scriptGrammar n .token (scriptGrammar.gap .token) cs (some (cs, [])) :=
    reads_gap (by decide)
  have hnone : ∀ cs : List Char, '%' ∉ cs.head? → Reads scriptGrammar n .token
      (.seq ScriptRule.comment (.many ScriptRule.blank)) cs none := by
    intro cs hcs
    refine .noFirst (.noFirst (.noText ?_))
    rintro ⟨rest, rfl⟩
    exact hcs rfl
  refine .opt (.silent (reads_blanks cs) (hgap _) ?_)
  unfold afterSpace
  split
  · rename_i rest hrest
    rw [hrest]
    -- the comment stops at a line end, where there is no blank and no further comment
    have hspaceless := spaceless_of_comment rest
    have hstop : (rest.dropWhile (!isLineEnd ·)).dropWhile isBlank =
        rest.dropWhile (!isLineEnd ·) := by
      cases hrest : rest.dropWhile (!isLineEnd ·) with
      | nil => rfl
      | cons c cs =>
        rw [hrest] at hspaceless
        exact List.dropWhile_cons_of_neg (by simp [(hspaceless c rfl).1])
    have hcomment : Reads scriptGrammar n .token ScriptRule.comment ('%' :: rest)
        (some (rest.dropWhile (!isLineEnd ·), [])) :=
      .silent (.text rfl) (hgap _) (reads_newline (by decide) rest)
    have hblanks := reads_blanks (n := n) (rest.dropWhile (!isLineEnd ·))
    rw [hstop] at hblanks
    exact .manyLast (.silent hcomment (hgap _) hblanks) (hgap _)
      (hnone _ fun hc => (hspaceless '%' hc).2 rfl)
  · rename_i hno
    refine .manyNone (hnone _ fun hc => ?_)
    obtain ⟨rest, hrest⟩ := List.head?_eq_some_iff.mp hc
    exact hno rest hrest

theorem heads_separator (c : Char) : separator.heads c = isSeparator c := by
  show ('\n' == c || (false || '\r' == c) || ';' == c) = (c == '\n' || c == '\r' || c == ';')
  rw [Bool.false_or, BEq.comm, BEq.comm (a := '\r'), BEq.comm (a := ';')]

theorem reads_noSeparator {cs : List Char} (hcs : ∀ c ∈ cs.head?, isSeparator c = false) :
    Reads scriptGrammar n .spaced separator cs none :=
  reads_noHead rfl fun c hc => (heads_separator c).trans (hcs c hc)

/-- A separator takes a line end or a semicolon. -/
theorem reads_separator {c : Char} (hc : isSeparator c = true) (cs : List Char) :
    ∃ rest, Reads scriptGrammar n .spaced separator (c :: cs) (some (rest, [])) ∧
      rest.length ≤ cs.length ∧ nextOperation (c :: cs) = nextOperation rest := by
  have hnext := nextOperation_of_separator hc cs
  have hcase := hc
  simp only [isSeparator, isLineEnd, Bool.or_eq_true, beq_iff_eq] at hcase
  rcases hcase with (rfl | rfl) | rfl
  · exact ⟨cs, .altLeft (.altLeft (.text rfl)), Nat.le_refl _, hnext⟩
  · have hfirst : Reads scriptGrammar n .spaced (.lit "\n") ('\r' :: cs) none :=
      .noText fun ⟨_, h⟩ => absurd (List.cons.inj h).1 (by decide)
    by_cases hpair : cs.head? = some '\n'
    · obtain ⟨rest, rfl⟩ := List.head?_eq_some_iff.mp hpair
      refine ⟨rest, .altLeft (.altRight hfirst (.altLeft (.text rfl))), Nat.le_succ _, ?_⟩
      rw [hnext]
      exact nextOperation_of_separator rfl rest
    · have hsecond : Reads scriptGrammar n .spaced (.lit "\r\n") ('\r' :: cs) none := by
        refine .noText fun ⟨rest, h⟩ => hpair ?_
        rw [← (List.cons.inj h).2]
        rfl
      exact ⟨cs, .altLeft (.altRight hfirst (.altRight hsecond (.text rfl))), Nat.le_refl _, hnext⟩
  · have hline : Reads scriptGrammar n .spaced .newline (';' :: cs) none :=
      reads_noHead rfl fun x hx => by obtain rfl := Option.some.inj hx; rfl
    exact ⟨cs, .altRight hline (.text rfl), Nat.le_refl _, hnext⟩

/-- Separators are taken up to where what is skipped leads to the next operation. -/
theorem reads_separators (length : Nat) {cs : List Char} (hlength : cs.length ≤ length)
    (h : Spaceless cs) :
    ∃ rest, Reads scriptGrammar n .spaced (.many separator) cs (some (rest, [])) ∧
      afterSpace rest = nextOperation cs := by
  induction length generalizing cs with
  | zero =>
    obtain rfl := List.length_eq_zero_iff.mp (Nat.le_zero.mp hlength)
    exact ⟨[], .manyNone (reads_noSeparator fun c hc => absurd hc (by simp)), rfl⟩
  | succ length ih =>
    by_cases hsep : ∀ c ∈ cs.head?, isSeparator c = false
    · refine ⟨cs, .manyNone (reads_noSeparator hsep), ?_⟩
      rw [nextOperation_of_spaceless h hsep, afterSpace_of_spaceless h]
    · cases cs with
      | nil => exact absurd (fun c hc => absurd hc (by simp)) hsep
      | cons c cs =>
        have hc : isSeparator c = true := by simpa using hsep
        obtain ⟨rest, hone, hle, hnext⟩ := reads_separator (n := n) hc cs
        have hgap := reads_space (n := n) rest
        have hshorter := hgap.length_le
        obtain ⟨last, hmany, hlast⟩ := ih
          (show (afterSpace rest).length ≤ length by rw [List.length_cons] at hlength; omega)
          (spaceless_afterSpace rest)
        rw [nextOperation_afterSpace, ← hnext] at hlast
        rcases hone.manyGoesOn hgap hmany with hmore | ⟨rfl, -, hend⟩
        · exact ⟨last, hmore, hlast⟩
        · rw [afterSpace_of_spaceless (spaceless_afterSpace rest)] at hlast
          exact ⟨rest, hend, hlast⟩

/-- One or more separators. -/
theorem reads_someSeparators {c : Char} (hc : isSeparator c = true) (cs : List Char) :
    ∃ rest, Reads scriptGrammar n .spaced separator.oneOrMore (c :: cs) (some (rest, [])) ∧
      afterSpace rest = nextOperation (c :: cs) := by
  obtain ⟨rest, hone, -, hnext⟩ := reads_separator (n := n) hc cs
  obtain ⟨last, hmany, hlast⟩ := reads_separators (n := n) _ (Nat.le_refl _)
    (spaceless_afterSpace rest)
  rw [nextOperation_afterSpace, ← hnext] at hlast
  exact ⟨last, .silent hone (reads_space rest) hmany, hlast⟩

theorem reads_noSeparators {cs : List Char} (hcs : ∀ c ∈ cs.head?, isSeparator c = false) :
    Reads scriptGrammar n .spaced separator.oneOrMore cs none :=
  .noFirst (reads_noSeparator hcs)

end Script

end Constituency
