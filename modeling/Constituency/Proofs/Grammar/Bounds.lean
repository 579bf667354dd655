import Constituency.Proofs.Grammar.Reading

/-!
# The recognizer reads

The recognizer nests calls only so deep, and gives up beyond that as if the text were not there. It
is shown here that this never happens (`run_reads`): what it comes to is what the expression reads.

How deep calls nest is counted between two characters. Where a part of a sequence is sure to take a
character, the parts after it no longer count (`Expr.depth`), and a repetition must repeat what
takes a character each time. With a number for each rule that its body stays below (`Bounds`), calls
nest at most as deep as the size of the grammar at each place of the text.
-/

namespace Constituency.Grammar

variable {R : Type}

/-- What is claimed of the rules of a grammar, to bound how deep calls nest. -/
structure Bounds (R : Type) where
  /-- The rules that take at least one character. -/
  takes : R → Bool
  /-- How deep calls nest below a rule before a character is taken. -/
  depth : R → Nat
  /-- The rules that are called by others; what they stand for does not test the start of the
  text. -/
  inner : R → Bool
  /-- The most that calls nest anywhere before a character is taken. -/
  limit : Nat

namespace Expr

variable (b : Bounds R)

/-- Whether an expression is sure to take a character. -/
def takes : Expr R → Bool
  | text cs => !cs.isEmpty
  | char _ => true
  | rule r => b.takes r
  | seq x y => x.takes || y.takes
  | alt x y => x.takes && y.takes
  | _ => false

/-- How deep calls nest before a character is taken. -/
def depth : Expr R → Nat
  | rule r => b.depth r + 1
  | seq x y => max x.depth (if x.takes b then 0 else y.depth) + 1
  | alt x y => max x.depth y.depth + 1
  | many x => x.depth + 1
  | opt x => x.depth + 1
  | absent x => x.depth + 1
  | _ => 1

/-- Whether an expression stays within the bounds wherever it is run inside a text. -/
def bounded : Expr R → Bool
  | textStart => false
  | rule r => b.inner r
  | seq x y => x.bounded && y.bounded && decide (y.depth b ≤ b.limit)
  | alt x y => x.bounded && y.bounded
  | many x => x.bounded && x.takes b && decide (x.depth b ≤ b.limit)
  | opt x => x.bounded
  | absent x => x.bounded
  | _ => true

end Expr

/-- What is claimed of the rules is true of them. -/
structure Bounds.Hold (b : Bounds R) (g : Grammar R) : Prop where
  takes : ∀ r, b.takes r = true → (g.body r).takes b = true
  depth : ∀ r, b.inner r = true → (g.body r).depth b ≤ b.depth r
  bounded : ∀ r, b.inner r = true → (g.body r).bounded b = true
  space : g.space.bounded b = true
  limit : b.limit + g.space.depth b ≤ g.size

/-- What a run comes to, places apart. -/
def Outcome.answer (o : Outcome R) : Answer R := o.2.map fun x => (x.1.rest, x.2)

/-- A place in a text of `n` characters. -/
def Cursor.At (n : Nat) (c : Cursor) : Prop := c.offset + c.rest.length = n

/-- A run reads an expression, and counts the characters on the way. -/
structure Outcome.IsReading (g : Grammar R) (n : Nat) (k : Kind) (e : Expr R) (c : Cursor)
    (o : Outcome R) : Prop where
  reads : Reads g n k e c.rest o.answer
  counts : ∀ x ∈ o.2, x.1.At n

section run

variable (g : Grammar R)

/-- The place after what may stand between the parts of a sequence. -/
def skip (fuel : Nat) (s : Setting) (c : Cursor) (a : Attempts R) : Cursor :=
  if s.kind == .spaced then
    match run g fuel ⟨.token, s.ahead⟩ g.space c a with
    | (_, some (c, _)) => c
    | (_, none) => c
  else c

variable (fuel : Nat) (s : Setting) (x y : Expr R) (c : Cursor) (a : Attempts R)

theorem run_seq : run g (fuel + 1) s (.seq x y) c a =
    match run g fuel s x c a with
    | (a, none) => (a, none)
    | (a, some (c, first)) =>
      match run g fuel s y (g.skip fuel s c a) a with
      | (a, none) => (a, none)
      | (a, some (c, second)) => (a, some (c, first ++ second)) := rfl

theorem run_alt : run g (fuel + 1) s (.alt x y) c a =
    match run g fuel s x c a with
    | (a, none) => run g fuel s y c a
    | found => found := rfl

theorem run_opt : run g (fuel + 1) s (.opt x) c a =
    match run g fuel s x c a with
    | (a, none) => (a, some (c, []))
    | found => found := rfl

theorem run_many : run g (fuel + 1) s (.many x) c a =
    match run g fuel s x c a with
    | (a, none) => (a, some (c, []))
    | (a, some (c, first)) =>
      repeatStep (fun c a => run g fuel s x (g.skip fuel s c a) a) (c.rest.length + 1) c a first :=
  rfl

theorem run_absent : run g (fuel + 1) s (.absent x) c a =
    match run g fuel { s with ahead := s.ahead.excluded } x c a with
    | (a, none) => (a, some (c, []))
    | (a, some _) => (a, none) := rfl

end run

/-- What a call of a rule comes to, attempts apart. -/
theorem run_rule (g : Grammar R) (fuel : Nat) (s : Setting) (r : R) (c : Cursor)
    (a : Attempts R) : ∃ ahead, (run g (fuel + 1) s (.rule r) c a).2 =
      (run g fuel ⟨s.kind.inner (g.kind r), ahead⟩ (g.body r) c a).2.map fun x =>
        (x.1, g.trace s.kind r c.offset (c.upTo x.1) x.2) := by
  have houter : (if g.kind r == .tight then ⟨.tight, s.ahead⟩ else s : Setting) =
      ⟨s.kind.outer (g.kind r), s.ahead⟩ := by
    unfold Kind.outer
    split <;> rfl
  have hinner : (if g.kind r == .token then ⟨.token, s.ahead⟩
      else ⟨s.kind.outer (g.kind r), s.ahead⟩ : Setting) =
      ⟨s.kind.inner (g.kind r), s.ahead⟩ := by
    unfold Kind.inner
    split <;> rfl
  refine ⟨s.ahead, ?_⟩
  conv => lhs; unfold run
  dsimp only
  rw [houter]
  dsimp only
  rw [hinner]
  rcases run g fuel ⟨s.kind.inner (g.kind r), s.ahead⟩ (g.body r) c a with ⟨a', _ | ⟨c', ps⟩⟩
  · rfl
  · rfl

section

variable {g : Grammar R} {n : Nat} {b : Bounds R} {k : Kind} {e : Expr R} {cs cs' : List Char}

/-- An expression that is sure to take a character takes one. -/
theorem Reads.takes (hb : b.Hold g) {o : Answer R} (h : Reads g n k e cs o)
    (htakes : e.takes b = true) : ∀ x ∈ o, x.1.length < cs.length := by
  induction h with
  | @text k w cs cs' hw =>
    intro x hx
    obtain rfl := Option.some.inj hx
    have hne : w ≠ [] := by simpa [Expr.takes] using htakes
    have hpos := List.length_pos_iff.mpr hne
    rw [hw, List.length_append]
    exact Nat.lt_add_of_pos_left hpos
  | char _ =>
    intro x hx
    obtain rfl := Option.some.inj hx
    exact Nat.lt_succ_self _
  | @rule k r i w cs cs' ps _ _ _ ih =>
    intro x hx
    obtain rfl := Option.some.inj hx
    exact ih (hb.takes r htakes) (cs', ps) rfl
  | seq ha hgap hbb iha ihgap ihb =>
    intro x hx
    obtain rfl := Option.some.inj hx
    have h₁ := ha.suffix_some.length_le
    have h₂ := hgap.suffix_some.length_le
    have h₃ := hbb.suffix_some.length_le
    rcases Bool.or_eq_true_iff.mp htakes with hx | hy
    · have hlt := iha hx _ rfl
      dsimp only at hlt ⊢
      omega
    · have hlt := ihb hy _ rfl
      dsimp only at hlt ⊢
      omega
  | altLeft _ ih => exact ih (Bool.and_eq_true_iff.mp htakes).1
  | altRight _ _ _ ih => exact ih (Bool.and_eq_true_iff.mp htakes).2
  | textEnd | opt | noOpt | manyNone | manyLast | manyMore | absent =>
    exact absurd htakes Bool.false_ne_true
  | noText | noChar | noTextEnd | noRule | noFirst | noSecond | notAbsent =>
    exact fun x hx => absurd hx (by simp)

/-- An expression leaves at most what was there. -/
theorem Reads.length_le {ps : List (Parse R)} (h : Reads g n k e cs (some (cs', ps))) :
    cs'.length ≤ cs.length :=
  h.suffix_some.length_le

end

/-- How deep calls are nested at most when an expression is run on a text of some length. -/
def need (g : Grammar R) (b : Bounds R) : Kind → Expr R → Nat → Nat
  | .spaced, e, length => length * g.size + e.depth b + g.space.depth b
  | _, e, length => length * g.size + e.depth b

theorem Expr.depth_pos (b : Bounds R) (e : Expr R) : 0 < e.depth b := by
  cases e <;> exact Nat.succ_pos _

section need

variable {g : Grammar R} {b : Bounds R} {k : Kind} {e x : Expr R} {length fewer fuel : Nat}

/-- Where fewer characters are left, everything within the limit may be nested anew. -/
theorem need_of_lt (hb : b.Hold g) (hfuel : need g b k e length ≤ fuel + 1)
    (hfewer : fewer < length) (hx : x.depth b ≤ b.limit) : need g b k x fewer ≤ fuel := by
  have hsize := hb.limit
  have hpos := e.depth_pos b
  have hmul : (fewer + 1) * g.size ≤ length * g.size := Nat.mul_le_mul_right _ hfewer
  rw [Nat.add_mul, Nat.one_mul] at hmul
  cases k <;> simp only [need] at hfuel ⊢ <;> omega

/-- The parts of an expression are nested less deep. -/
theorem need_of_part (hfuel : need g b k e length ≤ fuel + 1) (hfewer : fewer ≤ length)
    (hx : x.depth b + 1 ≤ e.depth b) : need g b k x fewer ≤ fuel := by
  have hmul : fewer * g.size ≤ length * g.size := Nat.mul_le_mul_right _ hfewer
  cases k <;> simp only [need] at hfuel ⊢ <;> omega

/-- What is skipped is nested less deep than the parts between which it stands. -/
theorem need_of_space (hfuel : need g b .spaced e length ≤ fuel + 1) (hfewer : fewer ≤ length) :
    need g b .token g.space fewer ≤ fuel := by
  have hmul : fewer * g.size ≤ length * g.size := Nat.mul_le_mul_right _ hfewer
  have hpos := e.depth_pos b
  simp only [need] at hfuel ⊢
  omega

/-- The body of a rule needs no more than the rule. -/
theorem need_of_inner (called : Kind) (hfuel : need g b k e length ≤ fuel) :
    need g b (k.inner called) e length ≤ fuel := by
  cases k <;> cases called <;> simp only [need, Kind.inner, Kind.outer] at hfuel ⊢ <;>
    first | exact hfuel | exact Nat.le_trans (Nat.le_add_right ..) hfuel

end need

namespace Outcome.IsReading

variable {g : Grammar R} {n : Nat} {k : Kind} {e : Expr R} {c : Cursor} {a : Attempts R}

/-- A run that fails reads an expression if it reads as failing. -/
theorem of_none {o : Outcome R} (ho : o.2 = none) (h : Reads g n k e c.rest none) :
    o.IsReading g n k e c := by
  refine ⟨?_, fun x hx => absurd (ho ▸ hx) (Option.not_mem_none x)⟩
  rw [answer, ho]
  exact h

theorem of_some {o : Outcome R} {c' : Cursor} {ps : List (Parse R)} (ho : o.2 = some (c', ps))
    (h : Reads g n k e c.rest (some (c'.rest, ps)))
    (hc : c'.At n) : o.IsReading g n k e c := by
  refine ⟨?_, fun x hx => ?_⟩
  · rw [answer, ho]
    exact h
  · rw [ho] at hx
    obtain rfl := Option.some.inj hx
    exact hc

theorem reads_of_none {o : Outcome R} (h : o.IsReading g n k e c) (ho : o.2 = none) :
    Reads g n k e c.rest none := by
  have hreads := h.reads
  rw [answer, ho] at hreads
  exact hreads

theorem reads_of_some {o : Outcome R} {c' : Cursor} {ps : List (Parse R)}
    (h : o.IsReading g n k e c) (ho : o.2 = some (c', ps)) :
    Reads g n k e c.rest (some (c'.rest, ps)) := by
  have hreads := h.reads
  rw [answer, ho] at hreads
  exact hreads

/-- The text between two places that a run has counted. -/
theorem upTo {o : Outcome R} (h : o.IsReading g n k e c) (hc : c.At n) {c' : Cursor}
    {ps : List (Parse R)} (ho : o.2 = some (c', ps)) : c.rest = c.upTo c' ++ c'.rest := by
  obtain ⟨w, hw⟩ := (h.reads_of_some ho).suffix _ rfl
  have hc' := h.counts _ ho
  have hlength := congrArg List.length hw
  rw [List.length_append] at hlength
  dsimp only [Cursor.At] at hw hlength hc hc'
  rw [Cursor.upTo, hw, show c'.offset - c.offset = w.length by omega, List.take_left]

end Outcome.IsReading

/-- What is skipped between the parts of a sequence. -/
theorem skip_reads {g : Grammar R} {n fuel : Nat} {s : Setting} {c : Cursor} {a : Attempts R}
    (hc : c.At n)
    (h : s.kind = .spaced →
      (run g fuel ⟨.token, s.ahead⟩ g.space c a).IsReading g n .token g.space c) :
    ∃ qs, Reads g n .token (g.gap s.kind) c.rest (some ((g.skip fuel s c a).rest, qs)) ∧
      (g.skip fuel s c a).At n := by
  unfold gap skip
  by_cases hspaced : (s.kind == .spaced) = true
  · have hspace := h (beq_iff_eq.mp hspaced)
    rw [if_pos hspaced, if_pos hspaced]
    rcases hrun : run g fuel ⟨.token, s.ahead⟩ g.space c a with ⟨a', _ | ⟨c', ps⟩⟩
    · rw [hrun] at hspace
      exact ⟨[], .noOpt hspace.reads, hc⟩
    · rw [hrun] at hspace
      exact ⟨ps, .opt hspace.reads, hspace.counts _ rfl⟩
  · rw [if_neg hspaced, if_neg hspaced]
    exact ⟨[], .text rfl, hc⟩

/-- A repetition goes on until what it repeats is not there, if that takes a character each time. -/
theorem repeatStep_reads {g : Grammar R} {n : Nat} {k : Kind} {x : Expr R}
    {step : Cursor → Attempts R → Outcome R} (length : Nat)
    (hstep : ∀ c a, c.At n → c.rest.length ≤ length → ∃ c' qs,
      Reads g n .token (g.gap k) c.rest (some (c'.rest, qs)) ∧ (step c a).IsReading g n k x c' ∧
        ∀ y ∈ (step c a).2, y.1.rest.length < c.rest.length) :
    ∀ (times : Nat) (c : Cursor) (a : Attempts R) (found : List (Parse R)), c.At n →
      c.rest.length ≤ length → c.rest.length < times →
      ∃ a' c' qs, repeatStep step times c a found = (a', some (c', found ++ qs)) ∧ c'.At n ∧
        ∀ (cs : List Char) (ps : List (Parse R)), Reads g n k x cs (some (c.rest, ps)) →
          Reads g n k (.many x) cs (some (c'.rest, ps ++ qs))
  | 0, _, _, _, _, _, htimes => absurd htimes (Nat.not_lt_zero _)
  | times + 1, c, a, found, hc, hlength, htimes => by
    obtain ⟨c₁, qs, hgap, hreading, htakes⟩ := hstep c a hc hlength
    rw [repeatStep]
    rcases hrun : step c a with ⟨a', _ | ⟨c₂, ps₁⟩⟩
    · rw [hrun] at hreading
      refine ⟨a', c, [], by rw [List.append_nil], hc, fun cs ps hfirst => ?_⟩
      rw [List.append_nil]
      exact .manyLast hfirst hgap hreading.reads
    · rw [hrun] at hreading htakes
      have hfewer : c₂.rest.length < c.rest.length := htakes _ rfl
      obtain ⟨a'', c', rs, hrepeat, hc', hmany⟩ := repeatStep_reads length hstep times c₂ a'
        (found ++ ps₁) (hreading.counts _ rfl) (by omega) (by omega)
      rw [List.append_assoc] at hrepeat
      refine ⟨a'', c', ps₁ ++ rs, hrepeat, hc', fun cs ps hfirst => ?_⟩
      exact .manyMore hfirst hgap hreading.reads (hmany c₁.rest ps₁ hreading.reads)

section operators

variable {g : Grammar R} {n fuel : Nat} {s : Setting} {x y : Expr R} {c : Cursor} {a : Attempts R}
  (hc : c.At n)

include hc

theorem run_text_reads (w : List Char) :
    (run g (fuel + 1) s (.text w) c a).IsReading g n s.kind (.text w) c := by
  have hrun : (run g (fuel + 1) s (.text w) c a).2 = (c.takeText? w).map (·, []) := rfl
  by_cases hw : w <+: c.rest
  · obtain ⟨cs, hcs⟩ := hw
    have htake : c.takeText? w = some ⟨cs, c.offset + w.length⟩ := by
      rw [Cursor.takeText?, if_pos (List.isPrefixOf_iff_prefix.mpr ⟨cs, hcs⟩), ← hcs,
        List.drop_left]
    rw [htake] at hrun
    refine .of_some hrun (.text hcs.symm) ?_
    rw [Cursor.At, ← hcs, List.length_append] at hc
    rw [Cursor.At, Nat.add_assoc]
    exact hc
  · have htake : c.takeText? w = none := if_neg fun h => hw (List.isPrefixOf_iff_prefix.mp h)
    rw [htake] at hrun
    exact .of_none hrun (.noText hw)

theorem run_char_reads (p : Char → Bool) :
    (run g (fuel + 1) s (.char p) c a).IsReading g n s.kind (.char p) c := by
  have hrun : (run g (fuel + 1) s (.char p) c a).2 = (c.takeChar? p).map (·, []) := rfl
  obtain ⟨cs, offset⟩ := c
  cases cs with
  | nil => exact .of_none hrun (.noChar fun x hx => absurd hx (Option.not_mem_none x))
  | cons d cs =>
    by_cases hd : p d = true
    · have htake : Cursor.takeChar? ⟨d :: cs, offset⟩ p = some ⟨cs, offset + 1⟩ := if_pos hd
      rw [htake] at hrun
      refine .of_some hrun (.char hd) ?_
      dsimp only [Cursor.At, List.length_cons] at hc ⊢
      omega
    · have htake : Cursor.takeChar? ⟨d :: cs, offset⟩ p = none := if_neg hd
      rw [htake] at hrun
      refine .of_none hrun (.noChar fun x hx => ?_)
      obtain rfl := Option.some.inj hx
      exact Bool.not_eq_true _ ▸ hd

theorem run_textEnd_reads :
    (run g (fuel + 1) s .textEnd c a).IsReading g n s.kind .textEnd c := by
  obtain ⟨cs, offset⟩ := c
  cases cs with
  | nil => exact .of_some rfl .textEnd hc
  | cons d cs => exact .of_none rfl (.noTextEnd (List.cons_ne_nil d cs))

omit hc in
theorem run_alt_reads (hx : (run g fuel s x c a).IsReading g n s.kind x c)
    (hy : ∀ a, (run g fuel s y c a).IsReading g n s.kind y c) :
    (run g (fuel + 1) s (.alt x y) c a).IsReading g n s.kind (.alt x y) c := by
  rw [run_alt]
  rcases hrun : run g fuel s x c a with ⟨a₁, _ | ⟨c₁, ps⟩⟩
  · rw [hrun] at hx
    exact ⟨.altRight hx.reads (hy a₁).reads, (hy a₁).counts⟩
  · rw [hrun] at hx
    exact ⟨.altLeft hx.reads, hx.counts⟩

theorem run_opt_reads (hx : (run g fuel s x c a).IsReading g n s.kind x c) :
    (run g (fuel + 1) s (.opt x) c a).IsReading g n s.kind (.opt x) c := by
  rw [run_opt]
  rcases hrun : run g fuel s x c a with ⟨a₁, _ | ⟨c₁, ps⟩⟩
  · rw [hrun] at hx
    exact .of_some rfl (.noOpt hx.reads) hc
  · rw [hrun] at hx
    exact ⟨.opt hx.reads, hx.counts⟩

theorem run_absent_reads
    (hx : (run g fuel { s with ahead := s.ahead.excluded } x c a).IsReading g n s.kind x c) :
    (run g (fuel + 1) s (.absent x) c a).IsReading g n s.kind (.absent x) c := by
  rw [run_absent]
  rcases hrun : run g fuel { s with ahead := s.ahead.excluded } x c a with ⟨a₁, _ | ⟨c₁, ps⟩⟩
  · rw [hrun] at hx
    exact .of_some rfl (.absent hx.reads) hc
  · rw [hrun] at hx
    exact .of_none rfl (.notAbsent hx.reads)

theorem run_rule_reads {r : R}
    (hbody : ∀ ahead, (run g fuel ⟨s.kind.inner (g.kind r), ahead⟩ (g.body r) c a).IsReading g n
      (s.kind.inner (g.kind r)) (g.body r) c) :
    (run g (fuel + 1) s (.rule r) c a).IsReading g n s.kind (.rule r) c := by
  obtain ⟨ahead, hrun⟩ := run_rule g fuel s r c a
  have hreading := hbody ahead
  rcases hparts : (run g fuel ⟨s.kind.inner (g.kind r), ahead⟩ (g.body r) c a).2 with
    _ | ⟨c', ps⟩
  · rw [hparts] at hrun
    exact .of_none hrun (.noRule (hreading.reads_of_none hparts))
  · rw [hparts] at hrun
    exact .of_some hrun (.rule (hreading.reads_of_some hparts) (hreading.upTo hc hparts) hc)
      (hreading.counts _ hparts)

variable (hskip : ∀ (c₁ : Cursor) (a₁ : Attempts R), c₁.At n → c₁.rest.length ≤ c.rest.length →
  ∃ qs, Reads g n .token (g.gap s.kind) c₁.rest (some ((g.skip fuel s c₁ a₁).rest, qs)) ∧
    (g.skip fuel s c₁ a₁).At n)

include hskip

omit hc in
theorem run_seq_reads (hx : (run g fuel s x c a).IsReading g n s.kind x c)
    (hy : ∀ cs₁ ps c₂ qs a, c₂.At n → Reads g n s.kind x c.rest (some (cs₁, ps)) →
      Reads g n .token (g.gap s.kind) cs₁ (some (c₂.rest, qs)) →
      (run g fuel s y c₂ a).IsReading g n s.kind y c₂) :
    (run g (fuel + 1) s (.seq x y) c a).IsReading g n s.kind (.seq x y) c := by
  rw [run_seq]
  rcases hrun : run g fuel s x c a with ⟨a₁, _ | ⟨c₁, ps⟩⟩
  · rw [hrun] at hx
    exact .of_none rfl (.noFirst hx.reads)
  · rw [hrun] at hx
    obtain ⟨qs, hgap, hc₂⟩ := hskip c₁ a₁ (hx.counts _ rfl) hx.reads.length_le
    have hsecond := hy _ _ _ _ a₁ hc₂ hx.reads hgap
    dsimp only
    rcases hrun₂ : run g fuel s y (g.skip fuel s c₁ a₁) a₁ with ⟨a₂, _ | ⟨c₂, rs⟩⟩
    · rw [hrun₂] at hsecond
      exact .of_none rfl (.noSecond hx.reads hgap hsecond.reads)
    · rw [hrun₂] at hsecond
      exact .of_some rfl (.seq hx.reads hgap hsecond.reads) (hsecond.counts _ rfl)

theorem run_many_reads (hx : (run g fuel s x c a).IsReading g n s.kind x c)
    (htakes : ∀ cs cs' ps, Reads g n s.kind x cs (some (cs', ps)) → cs'.length < cs.length)
    (hagain : ∀ c₁ a₁, c₁.At n → c₁.rest.length < c.rest.length →
      (run g fuel s x c₁ a₁).IsReading g n s.kind x c₁) :
    (run g (fuel + 1) s (.many x) c a).IsReading g n s.kind (.many x) c := by
  rw [run_many]
  rcases hrun : run g fuel s x c a with ⟨a₁, _ | ⟨c₁, ps⟩⟩
  · rw [hrun] at hx
    exact .of_some rfl (.manyNone hx.reads) hc
  · rw [hrun] at hx
    have hfewer : c₁.rest.length < c.rest.length := htakes _ _ _ hx.reads
    obtain ⟨a', c', qs, hrepeat, hc', hmany⟩ := repeatStep_reads c₁.rest.length
      (fun c₂ a₂ hc₂ hlength => by
        obtain ⟨qs, hgap, hc₃⟩ := hskip c₂ a₂ hc₂ (by omega)
        have hle := hgap.length_le
        have hreading := hagain (g.skip fuel s c₂ a₂) a₂ hc₃ (by omega)
        exact ⟨_, qs, hgap, hreading, fun y hy =>
          Nat.lt_of_lt_of_le (htakes _ _ _ (hreading.reads_of_some hy)) hle⟩)
      (c₁.rest.length + 1) c₁ a₁ ps (hx.counts _ rfl) (Nat.le_refl _) (Nat.lt_succ_self _)
    dsimp only
    rw [hrepeat]
    exact .of_some rfl (hmany _ _ hx.reads) hc'

end operators

/-- **The recognizer reads.** With as many nested calls as the bounds ask for, what an expression
comes to when it is run is what it reads. -/
theorem run_reads {g : Grammar R} {b : Bounds R} (hb : b.Hold g) {n : Nat} (fuel : Nat)
    (s : Setting) (e : Expr R) (c : Cursor) (a : Attempts R) (hbounded : e.bounded b = true)
    (hfuel : need g b s.kind e c.rest.length ≤ fuel) (hc : c.At n) :
    (run g fuel s e c a).IsReading g n s.kind e c := by
  induction fuel generalizing s e c a with
  | zero =>
    have hpos := e.depth_pos b
    have hzero : need g b s.kind e c.rest.length = 0 := Nat.le_zero.mp hfuel
    cases hk : s.kind <;> rw [hk] at hzero <;> simp only [need] at hzero <;> omega
  | succ fuel ih =>
    have hskip : ∀ (c₁ : Cursor) (a₁ : Attempts R), c₁.At n → c₁.rest.length ≤ c.rest.length →
        ∃ qs, Reads g n .token (g.gap s.kind) c₁.rest (some ((g.skip fuel s c₁ a₁).rest, qs)) ∧
          (g.skip fuel s c₁ a₁).At n := by
      refine fun c₁ a₁ hc₁ hle => skip_reads hc₁ fun hspaced => ?_
      rw [hspaced] at hfuel
      exact ih ⟨.token, s.ahead⟩ g.space c₁ a₁ hb.space (need_of_space hfuel hle) hc₁
    -- a part that begins where the expression begins
    have hpart : ∀ (s₁ : Setting) (x : Expr R) (a₁ : Attempts R), s₁.kind = s.kind →
        x.bounded b = true → x.depth b + 1 ≤ e.depth b →
        (run g fuel s₁ x c a₁).IsReading g n s.kind x c := by
      intro s₁ x a₁ hkind hx hdepth
      rw [← hkind] at hfuel ⊢
      exact ih s₁ x c a₁ hx (need_of_part hfuel (Nat.le_refl _) hdepth) hc
    cases e with
    | text w => exact run_text_reads hc w
    | char p => exact run_char_reads hc p
    | textStart => exact absurd hbounded Bool.false_ne_true
    | textEnd => exact run_textEnd_reads hc
    | seq x y =>
      simp only [Expr.bounded, Bool.and_eq_true, decide_eq_true_eq] at hbounded
      obtain ⟨⟨hx, hy⟩, hlimit⟩ := hbounded
      have hfirst := hpart s x a rfl hx (Nat.succ_le_succ (Nat.le_max_left ..))
      refine run_seq_reads hskip hfirst fun cs₁ ps c₂ qs a₁ hc₂ hreads hgap => ?_
      have hle := hreads.length_le
      have hle₂ := hgap.length_le
      refine ih s y c₂ a₁ hy ?_ hc₂
      by_cases htakes : x.takes b = true
      · have hlt := hreads.takes hb htakes _ rfl
        exact need_of_lt hb hfuel (Nat.lt_of_le_of_lt hle₂ hlt) hlimit
      · refine need_of_part hfuel (Nat.le_trans hle₂ hle) (Nat.succ_le_succ ?_)
        rw [if_neg htakes]
        exact Nat.le_max_right ..
    | alt x y =>
      obtain ⟨hx, hy⟩ := Bool.and_eq_true_iff.mp hbounded
      exact run_alt_reads (hpart s x a rfl hx (Nat.succ_le_succ (Nat.le_max_left ..)))
        fun a₁ => hpart s y a₁ rfl hy (Nat.succ_le_succ (Nat.le_max_right ..))
    | many x =>
      simp only [Expr.bounded, Bool.and_eq_true, decide_eq_true_eq] at hbounded
      obtain ⟨⟨hx, htakes⟩, hlimit⟩ := hbounded
      refine run_many_reads hc hskip (hpart s x a rfl hx (Nat.le_refl _))
        (fun cs cs' ps h => h.takes hb htakes _ rfl) fun c₁ a₁ hc₁ hlt => ?_
      exact ih s x c₁ a₁ hx (need_of_lt hb hfuel hlt hlimit) hc₁
    | opt x => exact run_opt_reads hc (hpart s x a rfl hbounded (Nat.le_refl _))
    | absent x => exact run_absent_reads hc (hpart _ x a rfl hbounded (Nat.le_refl _))
    | rule r =>
      refine run_rule_reads hc fun ahead =>
        ih ⟨s.kind.inner (g.kind r), ahead⟩ (g.body r) c a (hb.bounded r hbounded) ?_ hc
      refine need_of_part (need_of_inner (g.kind r) hfuel) (Nat.le_refl _) ?_
      exact Nat.succ_le_succ (hb.depth r hbounded)

/-- What stays within the bounds always comes to something. -/
theorem exists_reads {g : Grammar R} {b : Bounds R} (hb : b.Hold g) {n : Nat} (k : Kind)
    {e : Expr R} (hbounded : e.bounded b = true) (cs : List Char) (hcs : cs.length ≤ n) :
    ∃ o, Reads g n k e cs o :=
  ⟨_, (run_reads hb (need g b k e cs.length) ⟨k, .none⟩ e ⟨cs, n - cs.length⟩ {} hbounded
    (Nat.le_refl _) (Nat.sub_add_cancel hcs)).reads⟩

/-- Behind more text an expression comes to the same, with its parses at other places. -/
theorem Reads.behind {g : Grammar R} {b : Bounds R} (hb : b.Hold g) {n : Nat} {k : Kind}
    {e : Expr R} {cs : List Char} {o : Answer R} (h : Reads g n k e cs o)
    (hbounded : e.bounded b = true) (hcs : cs.length ≤ n) (d : Nat) :
    Reads g (n + d) k e cs (o.moved d) := by
  obtain ⟨o', ho'⟩ :=
    exists_reads hb (n := n + d) k hbounded cs (Nat.le_trans hcs (Nat.le_add_right n d))
  obtain rfl := h.moved ho'
  exact ho'

/-- What is sure to take a character takes none from an empty text. -/
theorem reads_nothing {g : Grammar R} {b : Bounds R} (hb : b.Hold g) {n : Nat} {k : Kind}
    {e : Expr R} (hbounded : e.bounded b = true) (htakes : e.takes b = true) :
    Reads g n k e [] none := by
  obtain ⟨o, ho⟩ := exists_reads hb (n := n) k hbounded [] (Nat.zero_le _)
  cases o with
  | none => exact ho
  | some x => exact absurd (ho.takes hb htakes x rfl) (Nat.not_lt_zero _)

/-! ## Whole texts -/

/-- An expression whose front need not test that the text begins there. -/
def Expr.afterStart : Expr R → Expr R
  | textStart => text []
  | seq x y => seq x.afterStart y
  | e => e

theorem run_afterStart (g : Grammar R) (fuel : Nat) (s : Setting) (e : Expr R) {c : Cursor}
    (hc : c.offset = 0) (a : Attempts R) : run g fuel s e c a = run g fuel s e.afterStart c a := by
  induction e generalizing fuel a with
  | textStart =>
    cases fuel with
    | zero => rfl
    | succ fuel =>
      obtain ⟨cs, offset⟩ := c
      obtain rfl : offset = 0 := hc
      rfl
  | seq x y ih _ =>
    cases fuel with
    | zero => rfl
    | succ fuel =>
      rw [Expr.afterStart, run_seq, run_seq, ih]
  | _ => rfl

/-- **Parsing a whole text is reading it from the start.** -/
theorem parse_reads [BEq R] {g : Grammar R} {b : Bounds R} (hb : b.Hold g) {r : R}
    (hbounded : (g.body r).afterStart.bounded b = true)
    (hdepth : (g.body r).afterStart.depth b ≤ b.limit) (cs : List Char) :
    ∃ o, Reads g cs.length (Kind.spaced.inner (g.kind r)) (g.body r).afterStart cs o ∧
      (g.parse r cs).toOption =
        o.map fun x => .node r 0 (cs.take (cs.length - x.1.length)) x.2 := by
  have hsize := hb.limit
  have hspace := g.space.depth_pos b
  obtain ⟨fuel, hfuel⟩ : ∃ fuel, g.size * (cs.length + 2) = fuel + 1 := by
    have hpos : 0 < g.size * (cs.length + 2) := Nat.mul_pos (by omega) (by omega)
    exact ⟨_, (Nat.succ_pred_eq_of_pos hpos).symm⟩
  have hneed : need g b (Kind.spaced.inner (g.kind r)) (g.body r).afterStart cs.length ≤ fuel := by
    refine need_of_inner _ ?_
    rw [Nat.mul_comm, Nat.add_mul] at hfuel
    rw [need]
    omega
  obtain ⟨ahead, hrun⟩ := run_rule g fuel ⟨.spaced, .none⟩ r ⟨cs, 0⟩ {}
  have hstart := run_afterStart g fuel ⟨Kind.spaced.inner (g.kind r), ahead⟩ (g.body r)
    (c := ⟨cs, 0⟩) rfl {}
  have hreading := run_reads hb fuel ⟨Kind.spaced.inner (g.kind r), ahead⟩ (g.body r).afterStart
    ⟨cs, 0⟩ {} hbounded hneed (Nat.zero_add _)
  dsimp only at hrun hreading
  rw [hstart] at hrun
  refine ⟨_, hreading.reads, ?_⟩
  rw [parse, hfuel]
  rcases hrule : run g (fuel + 1) ⟨.spaced, .none⟩ (.rule r) ⟨cs, 0⟩ {} with ⟨a', o⟩
  rcases hbody : run g fuel ⟨Kind.spaced.inner (g.kind r), ahead⟩ (g.body r).afterStart ⟨cs, 0⟩ {}
    with ⟨a, _ | ⟨c', ps⟩⟩
  · rw [hrule, hbody] at hrun
    obtain rfl : o = none := hrun
    rfl
  · have hc' := hreading.counts _ (congrArg Prod.snd hbody)
    rw [hrule, hbody] at hrun
    have htrace : ∀ w, g.trace .spaced r 0 w ps = [.node r 0 w ps] := by
      intro w
      unfold trace Kind.outer
      cases g.kind r <;> rfl
    have hoffset : c'.offset = cs.length - c'.rest.length := by
      dsimp only [Cursor.At] at hc'
      omega
    obtain rfl : o = some (c', [.node r 0 (cs.take (cs.length - c'.rest.length)) ps]) := by
      rw [← hoffset, ← htrace]
      exact hrun
    rfl

theorem parse_eq_ok_iff [BEq R] {g : Grammar R} {b : Bounds R} (hb : b.Hold g) {r : R}
    (hbounded : (g.body r).afterStart.bounded b = true)
    (hdepth : (g.body r).afterStart.depth b ≤ b.limit) {cs : List Char} {p : Parse R} :
    g.parse r cs = .ok p ↔ ∃ rest ps,
      Reads g cs.length (Kind.spaced.inner (g.kind r)) (g.body r).afterStart cs
        (some (rest, ps)) ∧ .node r 0 (cs.take (cs.length - rest.length)) ps = p := by
  obtain ⟨o, ho, hparse⟩ := parse_reads hb hbounded hdepth cs
  have hok : g.parse r cs = .ok p ↔ (g.parse r cs).toOption = some p := by
    cases g.parse r cs <;> simp [Except.toOption]
  rw [hok, hparse, Option.map_eq_some_iff]
  constructor
  · rintro ⟨⟨rest, ps⟩, rfl, hp⟩
    exact ⟨rest, ps, ho, hp⟩
  · rintro ⟨rest, ps, hreads, hp⟩
    exact ⟨_, hreads.unique ho, hp⟩

end Constituency.Grammar
