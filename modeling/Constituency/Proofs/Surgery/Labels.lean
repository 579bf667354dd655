import Constituency.Proofs.Surgery.Tokens

/-!
# Templates and new labels in a text that goes on

A template ends at the parenthesis that closes its first one, a quoted label and the two parts of a
rewriting label end at delimiters. None of this stops at a line end, so these tokens may take what
was meant for other operations. But once they are closed they stay as they are if a line follows.

What is not closed can be affected. A text in quotation marks or slashes that is not closed is a
bare label instead; it stays one unless what follows closes it (`Script.isOpenLabel`).
-/

namespace Constituency

open Grammar ScriptRule

/-- What stands behind the parentheses that close so many open ones. -/
def Text.afterClosing : Nat → List Char → Option (List Char)
  | 0, cs => some cs
  | _ + 1, [] => none
  | depth + 1, c :: cs =>
    afterClosing (if c == ')' then depth else if c == '(' then depth + 2 else depth + 1) cs

namespace Script

open Text

variable {n : Nat} {k : Kind} {s z : List Char}

/-! ## Templates -/

theorem afterClosing_add (d e : Nat) (cs : List Char) :
    afterClosing (d + e) cs = (afterClosing d cs).bind (afterClosing e) := by
  induction cs generalizing d with
  | nil =>
    cases d with
    | zero => rw [Nat.zero_add, afterClosing, Option.bind_some]
    | succ d => rw [Nat.succ_add]; rfl
  | cons c cs ih =>
    cases d with
    | zero => rw [Nat.zero_add, afterClosing, Option.bind_some]
    | succ d =>
      rw [Nat.succ_add, afterClosing, afterClosing, ← ih]
      congr 1
      split
      · rfl
      · split
        · omega
        · omega

theorem afterClosing_append {d : Nat} {cs rest : List Char} (h : afterClosing d cs = some rest)
    (z : List Char) : afterClosing d (cs ++ z) = some (rest ++ z) := by
  induction cs generalizing d with
  | nil =>
    cases d with
    | zero =>
      rw [afterClosing] at h
      obtain rfl := Option.some.inj h
      rw [afterClosing]
    | succ d => exact absurd h (by simp [afterClosing])
  | cons c cs ih =>
    cases d with
    | zero =>
      rw [afterClosing] at h
      obtain rfl := Option.some.inj h
      rw [afterClosing]
    | succ d =>
      rw [afterClosing] at h
      rw [List.cons_append, afterClosing]
      exact ih h

/-- What stands inside a template, a smaller template or one character at a time. -/
def templatePart : Expr ScriptRule :=
  .rule template ||| .absent (.oneChar ['(', ')']) ++ .anyChar

/-- The inside of a template ends at the parenthesis that closes it, or it is not closed. -/
def ReadsInside (n : Nat) (cs : List Char) : Prop :=
  ∃ rest, Reads scriptGrammar n .token (.many templatePart) cs (some (rest, [])) ∧
    ((∃ after, rest = ')' :: after ∧ afterClosing 1 cs = some after) ∨
      rest.head? ≠ some ')' ∧ afterClosing 1 cs = none)

theorem reads_template_of_inside {cs : List Char} (h : ReadsInside n cs) :
    Reads scriptGrammar n .token (body template) ('(' :: cs)
      ((afterClosing 1 cs).map (·, [])) := by
  have hgap : ∀ cs, Reads scriptGrammar n .token (scriptGrammar.gap .token) cs (some (cs, [])) :=
    reads_gap (by decide)
  obtain ⟨rest, hmany, ⟨after, rfl, hafter⟩ | ⟨hopen, hafter⟩⟩ := h
  · rw [hafter]
    exact .silent (.silent (.text rfl) (hgap _) hmany) (hgap _) (.text rfl)
  · rw [hafter]
    refine .noSecond (.silent (.text rfl) (hgap _) hmany) (hgap _) (.noText ?_)
    rintro ⟨w, rfl⟩
    exact hopen rfl

theorem reads_noTemplate {cs : List Char} (h : cs.head? ≠ some '(') :
    Reads scriptGrammar n k (.rule template) cs none := by
  refine .noRule (.noFirst (.noFirst (.noText ?_)))
  rintro ⟨w, rfl⟩
  exact h rfl

theorem reads_inside (length : Nat) {cs : List Char} (hlength : cs.length ≤ length)
    (hn : cs.length ≤ n) : ReadsInside n cs := by
  have hparen : ∀ c, ['(', ')'].contains c = (c == '(' || c == ')') := by
    intro c
    rw [Bool.eq_iff_iff]
    simp
  -- where the inside of a template ends
  have hstop : ∀ {cs : List Char}, Reads scriptGrammar n .token (.rule template) cs none →
      (∀ c ∈ cs.head?, c = '(' ∨ c = ')') →
      Reads scriptGrammar n .token (.many templatePart) cs (some (cs, [])) := by
    intro cs htemplate hcs
    refine .manyNone (.altRight htemplate (reads_no_unless (by decide) (by decide) fun c hc => ?_))
    refine (hparen c).trans ?_
    rcases hcs c hc with rfl | rfl <;> rfl
  induction length generalizing cs with
  | zero =>
    obtain rfl := List.length_eq_zero_iff.mp (Nat.le_zero.mp hlength)
    exact ⟨[], hstop (reads_noTemplate (by simp)) (by simp), .inr ⟨by simp, rfl⟩⟩
  | succ length ih =>
    cases cs with
    | nil => exact ⟨[], hstop (reads_noTemplate (by simp)) (by simp), .inr ⟨by simp, rfl⟩⟩
    | cons c cs =>
      rw [List.length_cons] at hlength hn
      have hinside := ih (show cs.length ≤ length by omega) (by omega)
      by_cases hclose : c = ')'
      · subst hclose
        refine ⟨')' :: cs, hstop (reads_noTemplate (by simp)) (by simp), .inl ⟨cs, rfl, ?_⟩⟩
        rw [afterClosing, beq_self_eq_true, if_pos rfl, afterClosing]
      by_cases hopen : c = '('
      · subst hopen
        have hafter : afterClosing 1 ('(' :: cs) = (afterClosing 1 cs).bind (afterClosing 1) :=
          afterClosing_add 1 1 cs
        have htemplate := reads_template_of_inside hinside
        rcases hclosed : afterClosing 1 cs with _ | after
        · rw [hclosed] at hafter htemplate
          exact ⟨'(' :: cs, hstop (.noRule htemplate) (by simp), .inr ⟨by simp, hafter⟩⟩
        · -- a smaller template, and what follows it
          rw [hclosed] at hafter htemplate
          obtain ⟨w, hw⟩ := htemplate.suffix _ rfl
          have hrule : Reads scriptGrammar n .token (.rule template) ('(' :: cs)
              (some (after, [])) :=
            .rule (i := n - (cs.length + 1)) htemplate hw (by rw [List.length_cons]; omega)
          have hshorter : after.length < cs.length + 1 := hrule.takes bounds_hold rfl _ rfl
          obtain ⟨rest, hmany, hrest⟩ := ih (show after.length ≤ length by omega) (by omega)
          have hpart : Reads scriptGrammar n .token templatePart ('(' :: cs) (some (after, [])) :=
            .altLeft hrule
          refine ⟨rest, hpart.manyCons (by decide) hmany, ?_⟩
          rw [hafter]
          exact hrest
      · obtain ⟨rest, hmany, hrest⟩ := hinside
        have hfree : (Expr.oneChar ['(', ')'] : Expr ScriptRule).heads c = false :=
          (hparen c).trans (by simp [hopen, hclose])
        have hplain : Reads scriptGrammar n .token templatePart (c :: cs) (some (cs, [])) :=
          .altRight (reads_noTemplate (by simpa using hopen))
            (reads_unless (by decide) (by decide) hfree cs)
        refine ⟨rest, hplain.silentMany (by decide) hmany, ?_⟩
        have hafter : afterClosing 1 (c :: cs) = afterClosing 1 cs := by
          rw [afterClosing, if_neg (by simpa using hclose), if_neg (by simpa using hopen)]
        rw [hafter]
        exact hrest

/-- **A template that is closed stays closed.** -/
theorem keeps_template (s z : List Char) (k : Kind)
    {p : List Char → List (Parse ScriptRule) → Prop} :
    Keeps scriptGrammar s z k (.rule template) p := by
  refine Keeps.rule (q := fun _ _ => True) ?_ fun _ _ _ _ _ => trivial
  have hkind : k.inner (scriptGrammar.kind template) = .token := rfl
  rw [hkind]
  intro v v' ps hv h _
  by_cases hopen : v.head? = some '('
  · obtain ⟨cs, rfl⟩ := List.head?_eq_some_iff.mp hopen
    have hlength := hv.length_le
    rw [List.length_cons] at hlength
    have hbody := reads_template_of_inside (reads_inside (n := s.length) _ (Nat.le_refl cs.length)
      (by omega))
    have hunique := hbody.unique h
    rcases hclosed : afterClosing 1 cs with _ | after
    · rw [hclosed] at hunique
      exact absurd hunique (by simp)
    · rw [hclosed] at hunique
      obtain ⟨rfl, rfl⟩ := Prod.mk.inj (Option.some.inj hunique)
      have hfurther := reads_template_of_inside (reads_inside (n := s.length + z.length) _
        (Nat.le_refl (cs ++ z).length) (by rw [List.length_append]; omega))
      rw [afterClosing_append hclosed] at hfurther
      exact hfurther
  · obtain ⟨y, hy⟩ := h.front
    cases hy with
    | text hw => exact absurd (by rw [hw]; rfl) hopen

/-! ## Labels between delimiters -/

/-- What is left of a text from the first delimiter on that no backslash lets through. -/
def fromDelimiter (d : Char) (cs : List Char) : List Char := unescaped d (d == ·) cs

theorem fromDelimiter_head {d c : Char} {cs rest : List Char}
    (h : fromDelimiter d cs = c :: rest) : c = d :=
  (beq_iff_eq.mp (ends_of_unescaped h)).symm

theorem reads_regexBody (cs : List Char) :
    Reads scriptGrammar n .token (body regexBody) cs (some (fromDelimiter '/' cs, [])) :=
  reads_body (by decide) (by decide) (by decide) cs

theorem reads_quotedBody (cs : List Char) :
    Reads scriptGrammar n .token (body quotedBody) cs (some (fromDelimiter '"' cs, [])) :=
  reads_body (by decide) (by decide) (by decide) cs

theorem reads_replacement (cs : List Char) :
    ∃ rest, Reads scriptGrammar n .token (body replacement) cs (some (rest, [])) :=
  ⟨_, reads_body (g := scriptGrammar) (show (Kind.token ≠ .spaced) by decide)
    (show (Expr.alt (.lit "/") .newline).byHead = true from rfl) rfl cs⟩

/-- A text between delimiters that is closed stays as it is. -/
theorem keeps_delimited (s z : List Char) {r : ScriptRule} {d : Char} (hkind : kind r = .token)
    (hd : d ≠ '\\') (hbody : ∀ n cs, Reads scriptGrammar n .token (body r) cs
      (some (fromDelimiter d cs, []))) :
    Keeps scriptGrammar s z .tight (.rule r) fun v' _ => v' ≠ [] :=
  fun v v' ps _ h hclosed =>
    keptAt_delimited (g := scriptGrammar) (v := v) hkind hd hbody v' ps h hclosed

/-- What follows a part of a tight rule is there, so there is something left. -/
theorem ne_nil_of_text {w v₁ v₂ v' : List Char} {qs rs : List (Parse ScriptRule)} (hw : w ≠ [])
    (hgap : Reads scriptGrammar n .token (scriptGrammar.gap .tight) v₁ (some (v₂, qs)))
    (h : Reads scriptGrammar n .tight (.text w) v₂ (some (v', rs))) : v₁ ≠ [] := by
  obtain ⟨rfl, -⟩ := Prod.mk.inj (Option.some.inj ((reads_gap (by decide) _).unique hgap))
  cases h with
  | text hv =>
    rw [hv]
    exact fun hnil => hw (List.append_eq_nil_iff.mp hnil).1

section keeps

variable (s : List Char) (hz : z.head? = some '\n')

include hz

theorem keeps_quoted : Keeps scriptGrammar s z .spaced (.rule quoted) fun _ _ => True := by
  refine Keeps.rule (q := fun _ _ => True) ?_ fun _ _ _ _ h => h
  show Keeps scriptGrammar s z .tight (.lit "\"" ++ .rule quotedBody ++ .lit "\"") _
  have hquote : Keeps scriptGrammar s z .tight (.lit "\"") fun _ _ => True :=
    keeps_of_steady steady hz rfl
  have hbody := keeps_delimited s z (r := quotedBody) rfl (by decide) fun _ => reads_quotedBody
  refine (hquote.andThen steady hz hbody fun _ _ _ h => h).seq steady hz hquote ?_ fun _ _ _ h => h
  exact fun _ _ _ _ _ _ hgap h _ => ne_nil_of_text (List.cons_ne_nil _ _) hgap h

/-- A rewriting label up to its last slash. -/
def regexFront : Expr ScriptRule :=
  .lit "/" ++ .rule regexBody ++ .lit "/" ++ .rule replacement

theorem keeps_regexFront : Keeps scriptGrammar s z .tight regexFront fun _ _ => True := by
  have hslash : Keeps scriptGrammar s z .tight (.lit "/") fun _ _ => True :=
    keeps_of_steady steady hz rfl
  have hbody := keeps_delimited s z (r := regexBody) rfl (by decide) fun _ => reads_regexBody
  have hreplacement : Keeps scriptGrammar s z .tight (.rule replacement) fun _ _ => True :=
    keeps_of_steady steady hz rfl
  have hfirst : Keeps scriptGrammar s z .tight (.lit "/" ++ .rule regexBody ++ .lit "/")
      fun _ _ => True := by
    refine (hslash.andThen steady hz hbody fun _ _ _ h => h).seq steady hz hslash ?_
      fun _ _ _ h => h
    exact fun _ _ _ _ _ _ hgap h _ => ne_nil_of_text (List.cons_ne_nil _ _) hgap h
  exact hfirst.andThen steady hz hreplacement fun _ _ _ h => h

theorem keeps_relabelRegex :
    Keeps scriptGrammar s z .spaced (.rule relabelRegex) fun _ _ => True := by
  refine Keeps.rule (q := fun _ _ => True) ?_ fun _ _ _ _ h => h
  show Keeps scriptGrammar s z .tight (regexFront ++ .lit "/") _
  have hslash : Keeps scriptGrammar s z .tight (.lit "/") fun _ _ => True :=
    keeps_of_steady steady hz rfl
  exact (keeps_regexFront s hz).andThen steady hz hslash fun _ _ _ h => h

end keeps

/-! ## Open labels -/

/-- Whether a parse is a bare label that begins like one between delimiters, in a text that never
closes it. -/
def isOpenLabel (text : List Char) (p : Parse ScriptRule) : Bool :=
  p.rule == bareLabel && p.text.head?.any fun d =>
    (d == '"' || d == '/') && (fromDelimiter d (text.drop (p.start + 1))).isEmpty

/-- A bare label that is not open is closed if it begins with a delimiter. -/
theorem closed_of_not_open {c : Char} {i : Nat} {w cs : List Char} {qs : List (Parse ScriptRule)}
    (hi : s.drop i = c :: cs) (h : isOpenLabel s (.node bareLabel i (c :: w) qs) = false)
    (hc : c = '"' ∨ c = '/') : ∃ d rest, fromDelimiter c cs = d :: rest := by
  refine List.exists_cons_of_ne_nil fun hopen => ?_
  have hcs : s.drop (i + 1) = cs := by rw [← List.drop_drop, hi, List.drop_one, List.tail_cons]
  have hlabel : isOpenLabel s (.node bareLabel i (c :: w) qs) = true := by
    show (true && ((c == '"' || c == '/') && (fromDelimiter c (s.drop (i + 1))).isEmpty)) = true
    rw [hcs, hopen]
    rcases hc with rfl | rfl <;> rfl
  rw [hlabel] at h
  exact absurd h (by decide)

theorem reads_noDelimiter {r : ScriptRule} {d : Char} (hfront : (body r).front = .text [d])
    {cs : List Char} (hcs : cs.head? ≠ some d) : Reads scriptGrammar n k (.rule r) cs none := by
  refine .noRule (reads_of_noFront ?_)
  rw [show (scriptGrammar.body r).front = .text [d] from hfront]
  refine .noText fun ⟨rest, hrest⟩ => hcs ?_
  rw [← hrest]
  rfl

/-- A text between delimiters as part of a tight rule. -/
theorem reads_delimited {r : ScriptRule} {d : Char} (hkind : kind r = .token)
    (hbody : ∀ cs, Reads scriptGrammar n .token (body r) cs (some (fromDelimiter d cs, [])))
    {cs : List Char} (hn : cs.length ≤ n) :
    ∃ ps, Reads scriptGrammar n .tight (.rule r) cs (some (fromDelimiter d cs, ps)) := by
  have hinner : Kind.tight.inner (scriptGrammar.kind r) = .token := by
    rw [show scriptGrammar.kind r = .token from hkind]
    rfl
  have hreads := hbody cs
  rw [← hinner] at hreads
  obtain ⟨i, w, -, -, hrule⟩ := reads_rule hreads hn
  exact ⟨_, hrule⟩

/-- A quoted label fails only if it is not closed. -/
theorem unclosed_of_noQuoted {cs : List Char} (hn : cs.length ≤ n)
    (h : Reads scriptGrammar n .spaced (.rule quoted) ('"' :: cs) none) :
    fromDelimiter '"' cs = [] := by
  cases hclosed : fromDelimiter '"' cs with
  | nil => rfl
  | cons c rest =>
    obtain rfl := fromDelimiter_head hclosed
    obtain ⟨ps, hbody⟩ := reads_delimited (r := quotedBody) rfl reads_quotedBody hn
    rw [hclosed] at hbody
    have hquoted : ∃ x, Reads scriptGrammar n .tight (body quoted) ('"' :: cs) (some x) :=
      ⟨_, .seq (.seq (.text rfl) (reads_gap (by decide) _) hbody) (reads_gap (by decide) _)
        (.text rfl)⟩
    obtain ⟨x, hx⟩ := hquoted
    cases h with
    | noRule hnone => exact absurd (hx.unique hnone) (by simp)

/-- A rewriting label with a closed expression that fails still fails if a line follows: its
replacement stops at the line end. -/
theorem noRegex_further {cs rest : List Char} {c : Char} (hz : z.head? = some '\n')
    (hv : '/' :: cs <:+ s) (hclosed : fromDelimiter '/' cs = c :: rest)
    (h : Reads scriptGrammar s.length .spaced (.rule relabelRegex) ('/' :: cs) none) :
    Reads scriptGrammar (s.length + z.length) .spaced (.rule relabelRegex) ('/' :: cs ++ z)
      none := by
  obtain rfl := fromDelimiter_head hclosed
  have hn : cs.length ≤ s.length := Nat.le_trans (Nat.le_succ _) hv.length_le
  obtain ⟨ps, hbody⟩ := reads_delimited (r := regexBody) rfl reads_regexBody hn
  rw [hclosed] at hbody
  have hrest : rest.length ≤ s.length := by
    have hle := hbody.suffix_some.length_le
    rw [List.length_cons] at hle
    omega
  obtain ⟨last, hreplacement⟩ := reads_replacement (n := s.length) rest
  obtain ⟨i, w, -, -, hreplacement⟩ :=
    reads_rule (k := .tight) (r := replacement) hreplacement hrest
  have hfront : ∃ v' qs, Reads scriptGrammar s.length .tight regexFront ('/' :: cs)
      (some (v', qs)) :=
    ⟨_, _, .seq (.seq (.seq (.text rfl) (reads_gap (by decide) _) hbody)
      (reads_gap (by decide) _) (.text rfl)) (reads_gap (by decide) _) hreplacement⟩
  obtain ⟨v', qs, hfront⟩ := hfront
  have hfurther := keeps_regexFront s hz _ _ _ hv hfront trivial
  cases h with
  | noRule hnone =>
    -- the last slash is what is missing
    have hlast : Reads scriptGrammar s.length .tight (.lit "/") v' none := by
      obtain ⟨o, ho⟩ := exists_reads bounds_hold (n := s.length) .tight (e := .lit "/") rfl v'
        (Nat.le_trans hfront.suffix_some.length_le hv.length_le)
      cases o with
      | none => exact ho
      | some x =>
        have hall := Reads.seq hfront (reads_gap (by decide) _) ho
        exact absurd (hall.unique hnone) (by simp)
    have hlast := hlast.further steady hz rfl
    exact .noRule (.noSecond hfurther (reads_gap (by decide) _) hlast)

/-- **A new label stays as it is if a line follows**, unless it is a bare label that could be
closed. -/
theorem keeps_newLabel (hz : z.head? = some '\n') :
    Keeps scriptGrammar s z .spaced (.rule newLabel) fun _ ps =>
      ∀ p ∈ ps, ∀ q ∈ p.parts, isOpenLabel s q = false := by
  refine Keeps.rule (q := fun _ ps => ∀ q ∈ ps, isOpenLabel s q = false) ?_
    fun v' i w ps h => h _ (List.mem_singleton_self _)
  intro v v' ps hv h hasked
  have h : Reads scriptGrammar s.length .spaced
      (.alt (.alt (.rule relabelRegex) (.rule quoted)) (.rule bareLabel)) v (some (v', ps)) := h
  have hhead : ∀ {c cs}, v = c :: cs → (v ++ z).head? = some c := by
    rintro c cs rfl
    rfl
  cases h with
  | altLeft h =>
    cases h with
    | altLeft hregex => exact .altLeft (.altLeft (keeps_relabelRegex s hz _ _ _ hv hregex trivial))
    | altRight _ hquoted =>
      have hquote : ∃ cs, v = '"' :: cs := by
        cases hquoted with
        | rule hbody _ _ =>
          obtain ⟨y, hy⟩ := hbody.front
          cases hy with
          | text hw => exact ⟨_, hw⟩
      obtain ⟨cs, hcs⟩ := hquote
      have hslash : (v ++ z).head? ≠ some '/' := by
        rw [hhead hcs]
        decide
      have hregex := reads_noDelimiter (n := s.length + z.length) (k := .spaced)
        (r := relabelRegex) (d := '/') rfl hslash
      exact .altLeft (.altRight hregex (keeps_quoted s hz _ _ _ hv hquoted trivial))
  | altRight hno hbare =>
    have hfurther := hbare.further steady hz rfl
    have hshorter := hbare.takes bounds_hold rfl _ rfl
    cases hno with
    | altRight hregex hquoted =>
    cases hbare with
    | @rule _ _ i w _ _ qs hbody hw hi =>
    -- the label begins with the first character of the text
    obtain ⟨c, cs, rfl⟩ : ∃ c cs, v = c :: cs := by
      refine List.exists_cons_of_ne_nil fun hnil => ?_
      rw [hnil] at hshorter
      exact absurd hshorter (Nat.not_lt_zero _)
    obtain ⟨w', rfl⟩ : ∃ w', w = c :: w' := by
      cases w with
      | nil =>
        rw [List.nil_append] at hw
        exact absurd hshorter (by rw [← hw]; exact Nat.lt_irrefl _)
      | cons d w' => exact ⟨w', by rw [(List.cons.inj hw).1]⟩
    have hdrop : s.drop i = c :: cs := by
      rw [List.suffix_iff_eq_drop.mp hv]
      congr 1
      omega
    have hclosed := closed_of_not_open hdrop (hasked _ (List.mem_singleton_self _))
    refine .altRight (.altRight ?_ ?_) hfurther
    · by_cases hslash : c = '/'
      · subst hslash
        obtain ⟨d, rest, hrest⟩ := hclosed (.inr rfl)
        exact noRegex_further hz hv hrest hregex
      · exact reads_noDelimiter (d := '/') rfl (by simpa using hslash)
    · by_cases hquote : c = '"'
      · subst hquote
        obtain ⟨d, rest, hrest⟩ := hclosed (.inl rfl)
        have hn : cs.length ≤ s.length := Nat.le_trans (Nat.le_succ _) hv.length_le
        rw [unclosed_of_noQuoted hn hquoted] at hrest
        exact absurd hrest (by simp)
      · exact reads_noDelimiter (d := '"') rfl (by simpa using hquote)

end Script

end Constituency
