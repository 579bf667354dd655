import Constituency.Proofs.Grammar.Reading

/-!
# What tokens take

Names, labels, comments and the like are repetitions of single characters, each of which is there or
not by itself: the expression in front of it, which must be absent, looks at one character only
(`Expr.byHead`). Such a repetition takes the longest run of its characters (`reads_span`).

In a text between two delimiters a backslash lets a backslash or a delimiter through. Such a text
ends at the first delimiter that is not let through (`Text.unescaped`, `reads_body`).
-/

namespace Constituency

/-- What is left of a text from its first character on that ends it, where a backslash lets the next
character through if that is a backslash or the delimiter. -/
def Text.unescaped (delimiter : Char) (ends : Char → Bool) : List Char → List Char
  | [] => []
  | '\\' :: x :: cs =>
    if x == '\\' || x == delimiter then unescaped delimiter ends cs
    else unescaped delimiter ends (x :: cs)
  | c :: cs => if ends c then c :: cs else unescaped delimiter ends cs

namespace Text

variable {delimiter : Char} {ends : Char → Bool} {cs rest : List Char} {c : Char}

/-- What is left begins with a character that ends the text. -/
theorem ends_of_unescaped (h : unescaped delimiter ends cs = c :: rest) : ends c = true := by
  induction cs using unescaped.induct delimiter ends with
  | case1 => exact absurd h (by simp [unescaped])
  | case2 x cs hx ih =>
    rw [unescaped, if_pos hx] at h
    exact ih h
  | case3 x cs hx ih =>
    rw [unescaped, if_neg hx] at h
    exact ih h
  | case4 d cs halone hd =>
    rw [unescaped.eq_3 _ _ _ _ halone, if_pos hd] at h
    obtain ⟨rfl, -⟩ := List.cons.inj h
    exact hd
  | case5 d cs halone hd ih =>
    rw [unescaped.eq_3 _ _ _ _ halone, if_neg hd] at h
    exact ih h

theorem unescaped_plain {d : Char} (hd : d ≠ '\\') (cs : List Char) :
    unescaped delimiter ends (d :: cs) =
      if ends d then d :: cs else unescaped delimiter ends cs :=
  unescaped.eq_3 _ _ _ _ fun _ _ hbackslash _ => hd hbackslash

/-- A text that ends somewhere ends there if more follows. -/
theorem unescaped_append (hbackslash : ends '\\' = false)
    (h : unescaped delimiter ends cs = c :: rest) (z : List Char) :
    unescaped delimiter ends (cs ++ z) = c :: rest ++ z := by
  induction cs using unescaped.induct delimiter ends with
  | case1 => exact absurd h (by simp [unescaped])
  | case2 x cs hx ih =>
    rw [unescaped, if_pos hx] at h
    rw [List.cons_append, List.cons_append, unescaped, if_pos hx, ih h]
  | case3 x cs hx ih =>
    rw [unescaped, if_neg hx] at h
    have hrest := ih h
    rw [List.cons_append] at hrest
    rw [List.cons_append, List.cons_append, unescaped, if_neg hx, hrest]
  | case4 d cs halone hd =>
    have hplain : d ≠ '\\' := by
      rintro rfl
      exact absurd hd (by simp [hbackslash])
    rw [unescaped_plain hplain, if_pos hd] at h
    rw [List.cons_append, unescaped_plain hplain, if_pos hd, ← List.cons_append, h]
  | case5 d cs halone hd ih =>
    rw [unescaped.eq_3 _ _ _ _ halone, if_neg hd] at h
    have hplain : d ≠ '\\' := by
      rintro rfl
      cases cs with
      | nil => exact absurd h (by simp [unescaped])
      | cons x cs => exact halone x cs rfl rfl
    rw [List.cons_append, unescaped_plain hplain, if_neg hd, ih h]

/-- Whether a text begins with a word. -/
def begins (cs : List Char) (w : String) : Bool := w.toList.isPrefixOf cs

theorem begins_iff {w : String} : begins cs w = true ↔ w.toList <+: cs :=
  List.isPrefixOf_iff_prefix

end Text

namespace Grammar

variable {R : Type}

namespace Expr

/-- Whether an expression is there for sure in a text that begins with a character. -/
def heads : Expr R → Char → Bool
  | text [x], c => x == c
  | char p, c => p c
  | alt a b, c => a.heads c || b.heads c
  | _, _ => false

/-- Whether an expression can only be there in a text that begins with such a character as `p` is
true of, if that holds of the characters of its own. -/
def startsIn (p : Char → Bool) : Expr R → Bool
  | text (x :: _) => p x
  | char _ => true
  | alt a b => a.startsIn p && b.startsIn p
  | _ => false

/-- Whether the first character decides if an expression is there. -/
def byHead (e : Expr R) : Bool := e.startsIn e.heads

/-- The first part of a sequence. -/
def front : Expr R → Expr R
  | seq a _ => a.front
  | e => e

/-- The first of several rules that is there. -/
def choice (r : R) (rs : List R) : Expr R := rs.foldl (fun e r => alt e (rule r)) (rule r)

end Expr

variable {g : Grammar R} {n : Nat} {k : Kind}

/-- Between the parts of a token nothing is skipped. -/
theorem reads_gap (hk : k ≠ .spaced) (cs : List Char) :
    Reads g n .token (g.gap k) cs (some (cs, [])) := by
  have hgap : g.gap k = .text [] := if_neg (by simpa using hk)
  rw [hgap]
  exact .text rfl

/-- A character is not there in front of a text that begins with another one. -/
theorem reads_noText {c : Char} {w cs : List Char} (h : cs.head? ≠ some c) :
    Reads g n k (.text (c :: w)) cs none := by
  refine .noText ?_
  rintro ⟨rest, rfl⟩
  exact h rfl

section heads

variable {a b e : Expr R} {p : Char → Bool}

theorem reads_of_heads {c : Char} (cs : List Char) (h : e.startsIn p = true) :
    ∃ o, Reads g n k e (c :: cs) o ∧ (e.heads c = true → o.isSome = true) := by
  induction e with
  | text w =>
    by_cases hw : w <+: c :: cs
    · obtain ⟨cs', hcs⟩ := hw
      exact ⟨_, .text hcs.symm, fun _ => rfl⟩
    · refine ⟨none, .noText hw, fun hheads => absurd hheads ?_⟩
      match w with
      | [] | _ :: _ :: _ => exact Bool.false_ne_true
      | [x] => exact fun hx => hw ⟨cs, by rw [beq_iff_eq.mp hx]; rfl⟩
  | char q =>
    by_cases hq : q c = true
    · exact ⟨_, .char hq, fun _ => rfl⟩
    · exact ⟨none, .noChar (by simpa using hq), fun hheads => absurd hheads hq⟩
  | alt a b iha ihb =>
    obtain ⟨ha, hb⟩ := Bool.and_eq_true_iff.mp h
    obtain ⟨oa, hoa, hsomea⟩ := iha ha
    obtain ⟨ob, hob, hsomeb⟩ := ihb hb
    cases oa with
    | some x => exact ⟨_, .altLeft hoa, fun _ => rfl⟩
    | none =>
      refine ⟨ob, .altRight hoa hob, fun hheads => ?_⟩
      rcases Bool.or_eq_true_iff.mp hheads with hc | hc
      · exact absurd (hsomea hc) Bool.false_ne_true
      · exact hsomeb hc
  | _ => exact absurd h Bool.false_ne_true

theorem reads_none_of_startsIn {cs : List Char} (h : e.startsIn p = true)
    (hp : ∀ c, e.heads c = true → p c = true) (hcs : ∀ c ∈ cs.head?, p c = false) :
    Reads g n k e cs none := by
  induction e with
  | text w =>
    match w, h with
    | x :: w, hx =>
      refine .noText fun ⟨cs', hcs'⟩ => ?_
      have htrue : p x = true := hx
      exact absurd htrue (by rw [hcs x (by rw [← hcs']; rfl)]; exact Bool.false_ne_true)
  | char q =>
    refine .noChar fun c hc => ?_
    have hfalse := hcs c hc
    exact Bool.eq_false_iff.mpr fun hq =>
      absurd (hp c hq) (by rw [hfalse]; exact Bool.false_ne_true)
  | alt a b iha ihb =>
    obtain ⟨ha, hb⟩ := Bool.and_eq_true_iff.mp h
    exact .altRight (iha ha fun c hc => hp c (Bool.or_eq_true_iff.mpr (.inl hc)))
      (ihb hb fun c hc => hp c (Bool.or_eq_true_iff.mpr (.inr hc)))
  | _ => exact absurd h Bool.false_ne_true

/-- An expression that the first character decides is there if the text begins with one of its
characters. -/
theorem reads_head (h : e.byHead = true) {c : Char} (hc : e.heads c = true) (cs : List Char) :
    ∃ x, Reads g n k e (c :: cs) (some x) := by
  obtain ⟨o, ho, hsome⟩ := reads_of_heads (g := g) (n := n) (k := k) (c := c) cs h
  obtain ⟨x, rfl⟩ := Option.isSome_iff_exists.mp (hsome hc)
  exact ⟨x, ho⟩

theorem reads_noHead (h : e.byHead = true) {cs : List Char}
    (hcs : ∀ c ∈ cs.head?, e.heads c = false) : Reads g n k e cs none :=
  reads_none_of_startsIn h (fun _ hc => hc) hcs

/-- What a text comes to of which the first character is taken if `p` is true of it. -/
def takeHead (p : Char → Bool) : List Char → Answer R
  | [] => none
  | c :: cs => if p c then some (cs, []) else none

/-- A character in front of which something must be absent. -/
theorem reads_guarded (hk : k ≠ .spaced) (h : e.byHead = true) (p : Char → Bool) (cs : List Char) :
    Reads g n k (.seq (.absent e) (.char p)) cs (takeHead (fun c => !e.heads c && p c) cs) := by
  cases cs with
  | nil =>
    have habsent : Reads g n k e [] none := reads_noHead h fun c hc => absurd hc (by simp)
    exact .noSecond (.absent habsent) (reads_gap hk _) (.noChar fun c hc => absurd hc (by simp))
  | cons c cs =>
    rw [takeHead]
    by_cases hc : e.heads c = true
    · obtain ⟨x, hx⟩ := reads_head (g := g) (n := n) (k := k) h hc cs
      rw [if_neg (by simp [hc])]
      exact .noFirst (.notAbsent hx)
    · have habsent : Reads g n k e (c :: cs) none := by
        refine reads_noHead h fun x hx => ?_
        obtain rfl := Option.some.inj hx
        exact Bool.not_eq_true _ ▸ hc
      by_cases hp : p c = true
      · rw [if_pos (by simp [hc, hp])]
        exact .seq (.absent habsent) (reads_gap hk _) (.char hp)
      · rw [if_neg (by simp [hp])]
        refine .noSecond (.absent habsent) (reads_gap hk _) (.noChar fun x hx => ?_)
        obtain rfl := Option.some.inj hx
        exact Bool.not_eq_true _ ▸ hp

/-- A character that is not excluded. -/
theorem reads_unless (hk : k ≠ .spaced) (h : e.byHead = true) {c : Char} (hc : e.heads c = false)
    (cs : List Char) : Reads g n k (.seq (.absent e) .anyChar) (c :: cs) (some (cs, [])) := by
  have hreads := reads_guarded (g := g) (n := n) hk h (fun _ => true) (c :: cs)
  rw [takeHead, if_pos (by simp [hc])] at hreads
  exact hreads

theorem reads_no_unless (hk : k ≠ .spaced) (h : e.byHead = true) {cs : List Char}
    (hcs : ∀ c ∈ cs.head?, e.heads c = true) :
    Reads g n k (.seq (.absent e) .anyChar) cs none := by
  have hreads := reads_guarded (g := g) (n := n) hk h (fun _ => true) cs
  cases cs with
  | nil => exact hreads
  | cons c cs =>
    rw [takeHead, if_neg (by simp [hcs c rfl])] at hreads
    exact hreads

end heads

section sequences

variable {e : Expr R} {cs : List Char} {x : List Char × List (Parse R)}

theorem Reads.front (h : Reads g n k e cs (some x)) : ∃ y, Reads g n k e.front cs (some y) := by
  induction e generalizing x with
  | seq a b iha _ =>
    cases h with
    | seq ha _ _ => exact iha ha
  | _ => exact ⟨x, h⟩

/-- What does not begin is not there. -/
theorem reads_of_noFront (h : Reads g n k e.front cs none) : Reads g n k e cs none := by
  induction e with
  | seq a b iha _ => exact .noFirst (iha h)
  | _ => exact h

/-- What begins with a mark is not there in front of a text that begins otherwise. -/
theorem reads_noMark {c : Char} {w : List Char} (hfront : e.front = .text (c :: w))
    (h : cs.head? ≠ some c) : Reads g n k e cs none :=
  reads_of_noFront (hfront ▸ reads_noText h)

theorem Reads.head?_mark {c : Char} {w : List Char} (h : Reads g n k e cs (some x))
    (hfront : e.front = .text (c :: w)) : cs.head? = some c :=
  Decidable.byContradiction fun hne => absurd ((reads_noMark hfront hne).unique h) (by simp)

theorem Reads.opt_cases {cs' : List Char} {ps : List (Parse R)}
    (h : Reads g n k (.opt e) cs (some (cs', ps))) :
    cs' = cs ∧ ps = [] ∨ Reads g n k e cs (some (cs', ps)) := by
  cases h with
  | opt h => exact .inr h
  | noOpt _ => exact .inl ⟨rfl, rfl⟩

theorem Reads.choice {r : R} {rs : List R} (h : Reads g n k (.choice r rs) cs (some x)) :
    ∃ r' ∈ r :: rs, Reads g n k (.rule r') cs (some x) := by
  have hfold : ∀ (rs : List R) (e : Expr R),
      Reads g n k (rs.foldl (fun e r => .alt e (.rule r)) e) cs (some x) →
      Reads g n k e cs (some x) ∨ ∃ r ∈ rs, Reads g n k (.rule r) cs (some x) := by
    intro rs
    induction rs with
    | nil => exact fun e h => .inl h
    | cons r rs ih =>
      intro e h
      rcases ih _ h with hfirst | ⟨r', hr', hrest⟩
      · cases hfirst with
        | altLeft ha => exact .inl ha
        | altRight _ hb => exact .inr ⟨r, List.mem_cons_self .., hb⟩
      · exact .inr ⟨r', List.mem_cons_of_mem r hr', hrest⟩
  rcases hfold rs _ h with h | ⟨r', hr', h⟩
  · exact ⟨r, List.mem_cons_self .., h⟩
  · exact ⟨r', List.mem_cons_of_mem r hr', h⟩

/-- Of several rules the one is chosen that is there, if the others are not. -/
theorem reads_choice {r r' : R} {rs : List R} (hr' : r' ∈ r :: rs)
    (h : Reads g n k (.rule r') cs (some x))
    (hothers : ∀ q ∈ r :: rs, q ≠ r' → Reads g n k (.rule q) cs none) :
    Reads g n k (.choice r rs) cs (some x) := by
  have hfold : ∀ (rs : List R) (e : Expr R),
      (∀ q ∈ rs, q ≠ r' → Reads g n k (.rule q) cs none) →
      Reads g n k e cs (some x) ∨ Reads g n k e cs none ∧ r' ∈ rs →
      Reads g n k (rs.foldl (fun e r => .alt e (.rule r)) e) cs (some x) := by
    intro rs
    induction rs with
    | nil =>
      rintro e - (h | ⟨-, hmem⟩)
      · exact h
      · exact absurd hmem List.not_mem_nil
    | cons q rs ih =>
      intro e hno he
      refine ih _ (fun p hp => hno p (List.mem_cons_of_mem q hp)) ?_
      rcases he with he | ⟨he, hmem⟩
      · exact .inl (.altLeft he)
      · by_cases hq : q = r'
        · subst hq
          exact .inl (.altRight he h)
        · exact .inr ⟨.altRight he (hno q (List.mem_cons_self ..) hq),
            (List.mem_cons.mp hmem).resolve_left (Ne.symm hq)⟩
  refine hfold rs _ (fun q hq => hothers q (List.mem_cons_of_mem r hq)) ?_
  by_cases hr : r = r'
  · subst hr
    exact .inl h
  · exact .inr ⟨hothers r (List.mem_cons_self ..) hr,
      (List.mem_cons.mp hr').resolve_left (Ne.symm hr)⟩

end sequences

section many

variable {a : Expr R} {cs cs₁ cs₂ cs' : List Char} {ps qs rs : List (Parse R)}

/-- A repetition goes on behind its first part, or ends there, before what would be skipped. -/
theorem Reads.manyGoesOn (h : Reads g n k a cs (some (cs₁, ps)))
    (hgap : Reads g n .token (g.gap k) cs₁ (some (cs₂, qs)))
    (hmany : Reads g n k (.many a) cs₂ (some (cs', rs))) :
    Reads g n k (.many a) cs (some (cs', ps ++ rs)) ∨
      cs' = cs₂ ∧ rs = [] ∧ Reads g n k (.many a) cs (some (cs₁, ps)) := by
  cases hmany with
  | manyNone hnone => exact .inr ⟨rfl, rfl, .manyLast h hgap hnone⟩
  | manyLast hnext hgap' hlast => exact .inl (.manyMore h hgap hnext (.manyLast hnext hgap' hlast))
  | manyMore hnext hgap' hmore hrest =>
    exact .inl (.manyMore h hgap hnext (.manyMore hnext hgap' hmore hrest))

/-- A repetition with nothing between its parts goes on behind the first of them. -/
theorem Reads.manyCons (hk : k ≠ .spaced) (h : Reads g n k a cs (some (cs₁, ps)))
    (hmany : Reads g n k (.many a) cs₁ (some (cs', qs))) :
    Reads g n k (.many a) cs (some (cs', ps ++ qs)) := by
  rcases h.manyGoesOn (reads_gap hk _) hmany with hmore | ⟨rfl, rfl, hlast⟩
  · exact hmore
  · rw [List.append_nil]
    exact hlast

/-- A sequence of what leaves no parses. -/
theorem Reads.silent {e : Expr R} (h : Reads g n k a cs (some (cs₁, [])))
    (hgap : Reads g n .token (g.gap k) cs₁ (some (cs₂, qs)))
    (hsecond : Reads g n k e cs₂ (some (cs', []))) :
    Reads g n k (.seq a e) cs (some (cs', [])) :=
  .seq h hgap hsecond

/-- A repetition of what leaves no parses. -/
theorem Reads.silentMany (hk : k ≠ .spaced) (h : Reads g n k a cs (some (cs₁, [])))
    (hmany : Reads g n k (.many a) cs₁ (some (cs', []))) :
    Reads g n k (.many a) cs (some (cs', [])) :=
  h.manyCons hk hmany

/-- A repetition of single characters takes the longest run of them. -/
theorem reads_span (hk : k ≠ .spaced) {p : Char → Bool}
    (hone : ∀ c cs, p c = true → Reads g n k a (c :: cs) (some (cs, [])))
    (hnone : ∀ cs : List Char, (∀ c ∈ cs.head?, p c = false) → Reads g n k a cs none)
    (cs : List Char) : Reads g n k (.many a) cs (some (cs.dropWhile p, [])) := by
  induction cs with
  | nil => exact .manyNone (hnone [] fun c hc => absurd hc (by simp))
  | cons c cs ih =>
    by_cases hc : p c = true
    · rw [List.dropWhile_cons_of_pos hc]
      exact (hone c cs hc).manyCons hk ih
    · rw [List.dropWhile_cons_of_neg hc]
      refine .manyNone (hnone _ fun x hx => ?_)
      obtain rfl := Option.some.inj hx
      exact Bool.not_eq_true _ ▸ hc

/-- A sequence with nothing between its parts. -/
theorem Reads.next {e : Expr R} (hk : k ≠ .spaced) (h : Reads g n k a cs (some (cs₁, ps)))
    (hsecond : Reads g n k e cs₁ (some (cs', qs))) :
    Reads g n k (.seq a e) cs (some (cs', ps ++ qs)) :=
  .seq h (reads_gap hk _) hsecond

/-- One or more characters. -/
theorem reads_chars (hk : k ≠ .spaced) {p : Char → Bool} {c : Char} (hc : p c = true)
    (cs : List Char) :
    Reads g n k (Expr.char p).oneOrMore (c :: cs) (some (cs.dropWhile p, [])) :=
  .next hk (.char hc) (reads_span hk (fun _ _ hx => .char hx) (fun _ h => .noChar h) cs)

/-- A run of characters of one kind ends where there is another one. -/
theorem dropWhile_append {p : Char → Bool} {w rest : List Char} (hw : ∀ c ∈ w, p c = true)
    (hrest : ∀ c ∈ rest.head?, p c = false) : (w ++ rest).dropWhile p = rest := by
  rw [List.dropWhile_append_of_pos hw]
  cases rest with
  | nil => rfl
  | cons c rest => exact List.dropWhile_cons_of_neg (by simp [hrest c rfl])

theorem reads_run (hk : k ≠ .spaced) {p : Char → Bool} {w rest : List Char} (hne : w ≠ [])
    (hw : ∀ c ∈ w, p c = true) (hrest : ∀ c ∈ rest.head?, p c = false) :
    Reads g n k (Expr.char p).oneOrMore (w ++ rest) (some (rest, [])) := by
  obtain ⟨c, w, rfl⟩ := List.exists_cons_of_ne_nil hne
  obtain ⟨hc, hw⟩ := List.forall_mem_cons.mp hw
  have hrun := reads_chars (g := g) (n := n) hk hc (w ++ rest)
  rw [dropWhile_append hw hrest] at hrun
  exact hrun

end many

/-- Outside tokens a rule leaves a parse of the text that it takes. -/
theorem reads_node {r : R} {w rest : List Char} {ps : List (Parse R)} (hk : k ≠ .token)
    (h : Reads g n (k.inner (g.kind r)) (g.body r) (w ++ rest) (some (rest, ps)))
    (hn : (w ++ rest).length ≤ n) :
    ∃ i, Reads g n k (.rule r) (w ++ rest) (some (rest, [.node r i w ps])) := by
  obtain ⟨i, w', hw', -, hrule⟩ := reads_rule h hn
  obtain rfl := List.append_cancel_right hw'
  have htrace : g.trace k r i w ps = [.node r i w ps] := by
    unfold trace Kind.outer
    cases k <;> cases g.kind r <;> first | rfl | exact absurd rfl hk
  rw [htrace] at hrule
  exact ⟨i, hrule⟩

/-- Whatever text it is that the rule takes. -/
theorem reads_part {r : R} {cs rest : List Char} {ps : List (Parse R)} (hk : k ≠ .token)
    (h : Reads g n (k.inner (g.kind r)) (g.body r) cs (some (rest, ps))) (hn : cs.length ≤ n) :
    ∃ i w, Reads g n k (.rule r) cs (some (rest, [.node r i w ps])) := by
  obtain ⟨w, rfl⟩ := h.suffix_some
  obtain ⟨i, hrule⟩ := reads_node hk h hn
  exact ⟨i, w, hrule⟩

section oneOf

variable {ws : List String} {cs rest : List Char} {ps : List (Parse R)}

/-- Of several texts the first that is there is taken. -/
theorem reads_oneOf (ws : List String) (cs : List Char) :
    Reads g n k (.oneOf ws) cs
      ((ws.find? (Text.begins cs)).map fun w => (cs.drop w.toList.length, [])) := by
  have htaken : ∀ w, Text.begins cs w = true →
      Reads g n k (.lit w) cs (some (cs.drop w.toList.length, [])) := by
    intro w hw
    obtain ⟨rest, rfl⟩ := Text.begins_iff.mp hw
    rw [List.drop_left]
    exact .text rfl
  have hpassed : ∀ w, ¬ Text.begins cs w = true → Reads g n k (.lit w) cs none :=
    fun w hw => .noText fun h => hw (Text.begins_iff.mpr h)
  match ws with
  | [] => exact .noChar fun _ _ => rfl
  | [w] =>
    by_cases hw : Text.begins cs w = true
    · rw [List.find?_cons_of_pos hw]
      exact htaken w hw
    · rw [List.find?_cons_of_neg hw]
      exact hpassed w hw
  | w :: w' :: ws =>
    by_cases hw : Text.begins cs w = true
    · rw [List.find?_cons_of_pos hw]
      exact .altLeft (htaken w hw)
    · rw [List.find?_cons_of_neg hw]
      exact .altRight (hpassed w hw) (reads_oneOf (w' :: ws) cs)

/-- What is taken is one of the texts. -/
theorem mem_of_reads_oneOf (h : Reads g n k (.oneOf ws) cs (some (rest, ps))) :
    ps = [] ∧ ∃ w ∈ ws, cs = w.toList ++ rest := by
  obtain ⟨w, hw, heq⟩ := Option.map_eq_some_iff.mp ((reads_oneOf ws cs).unique h).symm
  obtain ⟨rfl, rfl⟩ := Prod.mk.inj heq
  refine ⟨rfl, w, List.mem_of_find?_eq_some hw, ?_⟩
  obtain ⟨cs', rfl⟩ := Text.begins_iff.mp (List.find?_some hw)
  rw [List.drop_left]

/-- Nothing is taken if none of the texts is there. -/
theorem reads_noneOf (h : ∀ w ∈ ws, ¬ w.toList <+: cs) : Reads g n k (.oneOf ws) cs none := by
  have hnone : ws.find? (Text.begins cs) = none :=
    List.find?_eq_none.mpr fun w hw hbegins => h w hw (Text.begins_iff.mp hbegins)
  have hreads := reads_oneOf (g := g) (n := n) (k := k) ws cs
  rw [hnone] at hreads
  exact hreads

end oneOf

section body

variable {stop : Expr R} {delimiter : Char}

/-- What may stand between two delimiters, one character or two at a time. -/
def bodyPart (delimiter : Char) (stop : Expr R) : Expr R :=
  .alt (.alt (.text ['\\', '\\']) (.text ['\\', delimiter])) (.seq (.absent stop) .anyChar)

/-- **A text between delimiters goes up to what ends it.** -/
theorem reads_body (hk : k ≠ .spaced) (hstop : stop.byHead = true)
    (hbackslash : stop.heads '\\' = false) (cs : List Char) :
    Reads g n k (.many (bodyPart delimiter stop)) cs
      (some (Text.unescaped delimiter stop.heads cs, [])) := by
  -- where no backslash lets anything through, the next character decides
  have hplain : ∀ c cs, (c = '\\' → ∀ x ∈ List.head? cs, (x == '\\' || x == delimiter) = false) →
      (∀ o, Reads g n k (.seq (.absent stop) .anyChar) (c :: cs) o →
        Reads g n k (bodyPart delimiter stop) (c :: cs) o) := by
    intro c cs hnext o ho
    refine .altRight (.altRight (.noText ?_) (.noText ?_)) ho
    · rintro ⟨cs', hcs'⟩
      obtain ⟨rfl, rfl⟩ := List.cons.inj hcs'
      exact absurd (hnext rfl '\\' rfl) (by simp)
    · rintro ⟨cs', hcs'⟩
      obtain ⟨rfl, rfl⟩ := List.cons.inj hcs'
      exact absurd (hnext rfl delimiter rfl) (by simp)
  have hsingle : ∀ {c cs}, (∀ x cs', c = '\\' → cs = x :: cs' → False) →
      c = '\\' → ∀ x ∈ List.head? cs, (x == '\\' || x == delimiter) = false := by
    intro c cs halone hc x hx
    obtain ⟨cs', rfl⟩ := List.head?_eq_some_iff.mp hx
    exact absurd rfl (halone x cs' hc)
  induction cs using Text.unescaped.induct delimiter stop.heads with
  | case1 =>
    refine .manyNone (.altRight (.altRight (.noText ?_) (.noText ?_)) ?_)
    · exact fun h => absurd h.length_le (by simp)
    · exact fun h => absurd h.length_le (by simp)
    · exact reads_no_unless hk hstop fun c hc => absurd hc (by simp)
  | case2 x cs hx ih =>
    rw [Text.unescaped, if_pos hx]
    refine Reads.silentMany hk (.altLeft ?_) ih
    rcases Bool.or_eq_true_iff.mp hx with hx | hx
    · exact .altLeft (.text (by rw [beq_iff_eq.mp hx]; rfl))
    · by_cases hdouble : x = '\\'
      · exact .altLeft (.text (by rw [hdouble]; rfl))
      · refine .altRight (.noText ?_) (.text (by rw [beq_iff_eq.mp hx]; rfl))
        rintro ⟨cs', hcs'⟩
        exact hdouble (List.cons.inj (List.cons.inj hcs').2).1.symm
  | case3 x cs hx ih =>
    rw [Text.unescaped, if_neg hx]
    refine Reads.silentMany hk (hplain _ _ (fun _ y hy => ?_) _
      (reads_unless hk hstop hbackslash _)) ih
    obtain rfl := Option.some.inj hy
    exact Bool.not_eq_true _ ▸ hx
  | case4 c cs halone hc =>
    rw [Text.unescaped.eq_3 _ _ _ _ halone, if_pos hc]
    refine .manyNone (hplain _ _ (hsingle halone) _ (reads_no_unless hk hstop fun x hx => ?_))
    obtain rfl := Option.some.inj hx
    exact hc
  | case5 c cs halone hc ih =>
    rw [Text.unescaped.eq_3 _ _ _ _ halone, if_neg hc]
    exact Reads.silentMany hk (hplain _ _ (hsingle halone) _
      (reads_unless hk hstop (Bool.not_eq_true _ ▸ hc) _)) ih

end body

end Grammar

end Constituency
