import Constituency.Proofs.Grammar.Tokens

/-!
# What stays as it is if more text follows

Most expressions come to the same thing whether the text ends or goes on with a given character, a
line feed for example (`Expr.steady`): they never take this character, and where they take any other
one, what must be absent in front of it is there at this one. So nothing that follows the character
is ever looked at (`Reads.beforehand`). What is skipped must not be the character either, unless
nothing is skipped at all: so it is in tokens, and in a grammar that skips no line feed
(`Reads.further`).
-/

namespace Constituency.Grammar

variable {R : Type}

namespace Expr

/-- Whether two expressions in a sequence take one character that is not `c`. -/
def guarded (c : Char) : Expr R → Expr R → Bool
  | absent x, char p => x.byHead && (x.heads c || !p c)
  | _, _ => false

/-- Whether an expression is not affected by what follows if that begins with `c`, as far as it
calls rules that are not. -/
def steady (c : Char) (ok : R → Bool) (k : Kind) : Expr R → Bool
  | text w => !w.contains c
  | char p => !p c
  | rule r => ok r
  | seq a b => a.steady c ok k && b.steady c ok k || k != .spaced && guarded c a b
  | alt a b => a.steady c ok k && b.steady c ok k
  | many a => a.steady c ok k
  | opt a => a.steady c ok k
  | absent a => a.steady c ok k
  | _ => false

end Expr

/-- Rules that are not affected by what follows if that begins with `c`. -/
structure SteadyRules (g : Grammar R) (c : Char) (ok : R → Bool) : Prop where
  body : ∀ (r : R) (k : Kind), ok r = true → (g.body r).steady c ok (k.inner (g.kind r)) = true

/-- Such rules in a grammar that does not skip `c`. -/
structure Steady (g : Grammar R) (c : Char) (ok : R → Bool) : Prop extends SteadyRules g c ok where
  space : g.space.steady c ok .token = true

/-- An answer with more text behind what is left. -/
def Answer.followedBy (z : List Char) (o : Answer R) : Answer R := o.map fun x => (x.1 ++ z, x.2)

variable {g : Grammar R} {n : Nat} {k : Kind} {ok : R → Bool} {c : Char} {z : List Char}

theorem Steady.gap (hok : Steady g c ok) (k : Kind) : (g.gap k).steady c ok .token = true := by
  unfold Grammar.gap
  split
  · exact hok.space
  · rfl

/-- Where nothing is skipped that is affected, no rule that is called skips anything else. -/
theorem steady_gap_inner (hgap : (g.gap k).steady c ok .token = true) (called : Kind) :
    (g.gap (k.inner called)).steady c ok .token = true := by
  cases called with
  | spaced => exact hgap
  | tight | token => rfl

/-- A text that is not there is not there either if what follows begins with a character that the
text does not contain. -/
theorem not_prefix_append {w cs : List Char} (hw : ¬ w <+: cs) (hz : ∀ c ∈ z.head?, c ∉ w) :
    ¬ w <+: cs ++ z := by
  intro h
  have hcs : cs <+: cs ++ z := List.prefix_append ..
  by_cases hlength : w.length ≤ cs.length
  · exact hw (List.prefix_of_prefix_length_le h hcs hlength)
  · obtain ⟨t, rfl⟩ := List.prefix_of_prefix_length_le hcs h (by omega)
    obtain ⟨rest, hrest⟩ := h
    rw [List.append_assoc] at hrest
    have htail := List.append_cancel_left hrest
    cases t with
    | nil => exact hlength (by simp)
    | cons c t =>
      subst htail
      exact hz c rfl (by simp)

/-- Nor does what follows become the one character of a sequence that is guarded. -/
theorem guarded_beforehand {m : Nat} (hk : k ≠ .spaced) {a b : Expr R}
    (h : Expr.guarded c a b = true) (hz : z.head? = some c) {cs : List Char} {o : Answer R}
    (hreads : Reads g n k (.seq a b) cs o) : Reads g m k (.seq a b) (cs ++ z) (o.followedBy z) := by
  match a, b, h with
  | .absent x, .char p, h =>
    obtain ⟨hx, hother⟩ := Bool.and_eq_true_iff.mp h
    obtain rfl := (reads_guarded hk hx p cs).unique hreads
    have hfurther := reads_guarded (g := g) (n := m) hk hx p (cs ++ z)
    cases cs with
    | nil =>
      obtain ⟨w, rfl⟩ := List.head?_eq_some_iff.mp hz
      rw [List.nil_append, takeHead, if_neg (by
        rcases Bool.or_eq_true_iff.mp hother with h | h
        · simp [h]
        · simp only [Bool.not_eq_true'] at h
          simp [h])] at hfurther
      exact hfurther
    | cons d cs =>
      rw [List.cons_append, takeHead] at hfurther
      rw [takeHead]
      split at hfurther <;> rename_i hd
      · rw [if_pos hd]
        exact hfurther
      · rw [if_neg hd]
        exact hfurther

/-- **A steady expression comes to the same thing whatever follows**, if that begins with `c` and
nothing is skipped that is affected by it. -/
theorem Reads.beforehand (hok : SteadyRules g c ok) (hz : z.head? = some c) {e : Expr R}
    {cs : List Char} {o : Answer R} (h : Reads g n k e cs o)
    (hgap : (g.gap k).steady c ok .token = true) (he : e.steady c ok k = true) :
    Reads g (n + z.length) k e (cs ++ z) (o.followedBy z) := by
  have hhead : ∀ {x : Char} {cs : List Char}, x ∈ (cs ++ z).head? →
      x ∈ cs.head? ∨ cs = [] ∧ x = c := by
    intro x cs hx
    cases cs with
    | nil => exact .inr ⟨rfl, (Option.some.inj (hz.symm.trans hx)).symm⟩
    | cons d cs => exact .inl hx
  -- nothing is skipped inside of what is skipped
  have htoken : (g.gap .token).steady c ok .token = true := rfl
  induction h with
  | @text k w cs cs' hw => exact .text (by rw [hw, List.append_assoc])
  | @noText k w cs hno =>
    have hfree : c ∉ w := by simpa [Expr.steady] using he
    refine .noText (not_prefix_append hno fun x hx => ?_)
    obtain rfl := Option.some.inj (hz.symm.trans hx)
    exact hfree
  | char hp => exact .char hp
  | noChar hno =>
    refine .noChar fun x hx => ?_
    rcases hhead hx with hx | ⟨-, rfl⟩
    · exact hno x hx
    · simpa [Expr.steady] using he
  | textEnd | noTextEnd => exact absurd he Bool.false_ne_true
  | @rule k r i w cs cs' ps _ hw hi ih =>
    refine .rule (ih (steady_gap_inner hgap _) (hok.body r k he))
      (by rw [hw, List.append_assoc]) ?_
    rw [List.length_append]
    omega
  | @noRule k r cs _ ih => exact .noRule (ih (steady_gap_inner hgap _) (hok.body r k he))
  | @seq k _ _ _ _ _ _ _ _ _ ha hskip hb iha ihskip ihb =>
    rcases Bool.or_eq_true_iff.mp he with h | h
    · obtain ⟨h₁, h₂⟩ := Bool.and_eq_true_iff.mp h
      exact .seq (iha hgap h₁) (ihskip htoken hgap) (ihb hgap h₂)
    · obtain ⟨hk, h⟩ := Bool.and_eq_true_iff.mp h
      exact guarded_beforehand (by simpa using hk) h hz (.seq ha hskip hb)
  | @noFirst k _ _ _ ha iha =>
    rcases Bool.or_eq_true_iff.mp he with h | h
    · exact .noFirst (iha hgap (Bool.and_eq_true_iff.mp h).1)
    · obtain ⟨hk, h⟩ := Bool.and_eq_true_iff.mp h
      exact guarded_beforehand (by simpa using hk) h hz (.noFirst ha)
  | @noSecond k _ _ _ _ _ _ _ ha hskip hb iha ihskip ihb =>
    rcases Bool.or_eq_true_iff.mp he with h | h
    · obtain ⟨h₁, h₂⟩ := Bool.and_eq_true_iff.mp h
      exact .noSecond (iha hgap h₁) (ihskip htoken hgap) (ihb hgap h₂)
    · obtain ⟨hk, h⟩ := Bool.and_eq_true_iff.mp h
      exact guarded_beforehand (by simpa using hk) h hz (.noSecond ha hskip hb)
  | altLeft _ ih => exact .altLeft (ih hgap (Bool.and_eq_true_iff.mp he).1)
  | altRight _ _ iha ihb =>
    obtain ⟨ha, hb⟩ := Bool.and_eq_true_iff.mp he
    exact .altRight (iha hgap ha) (ihb hgap hb)
  | opt _ ih => exact .opt (ih hgap he)
  | noOpt _ ih => exact .noOpt (ih hgap he)
  | manyNone _ ih => exact .manyNone (ih hgap he)
  | @manyLast k a cs cs₁ cs₂ ps qs _ _ _ iha ihskip ihnext =>
    exact .manyLast (iha hgap he) (ihskip htoken hgap) (ihnext hgap he)
  | @manyMore k _ _ _ _ _ _ _ _ _ _ _ _ _ _ iha ihskip ihnext ihrest =>
    exact .manyMore (iha hgap he) (ihskip htoken hgap) (ihnext hgap he) (ihrest hgap he)
  | absent _ ih => exact .absent (ih hgap he)
  | notAbsent _ ih => exact .notAbsent (ih hgap he)

/-- In a grammar that does not skip `c` this is so for all expressions that are steady. -/
theorem Reads.further (hok : Steady g c ok) (hz : z.head? = some c) {e : Expr R} {cs : List Char}
    {o : Answer R} (h : Reads g n k e cs o) (he : e.steady c ok k = true) :
    Reads g (n + z.length) k e (cs ++ z) (o.followedBy z) :=
  h.beforehand hok.toSteadyRules hz (hok.gap k) he

/-! ## What is found stays found

An expression that is not steady may still be found in the same way if more text follows, as long as
it was found at all: a bracket that is closed stays closed.
-/

/-- If an expression is found in the text `v`, and what is left and the parses are as asked for, it
is found in the same way if `z` follows. -/
def KeptAt (g : Grammar R) (n : Nat) (z : List Char) (k : Kind) (e : Expr R)
    (asked : List Char → List (Parse R) → Prop) (v : List Char) : Prop :=
  ∀ v' ps, Reads g n k e v (some (v', ps)) → asked v' ps →
    Reads g (n + z.length) k e (v ++ z) (some (v' ++ z, ps))

section kept

variable {a b : Expr R} {v : List Char} {p q : List Char → List (Parse R) → Prop}

theorem KeptAt.mono (h : KeptAt g n z k a q v) (hasked : ∀ v' ps, p v' ps → q v' ps) :
    KeptAt g n z k a p v :=
  fun v' ps hreads hp => h v' ps hreads (hasked v' ps hp)

theorem KeptAt.alt (ha : KeptAt g n z k a p v) (hb : KeptAt g n z k b p v)
    (hno : ∀ v' ps, Reads g n k a v none → Reads g n k b v (some (v', ps)) → p v' ps →
      Reads g (n + z.length) k a (v ++ z) none) : KeptAt g n z k (.alt a b) p v := by
  intro v' ps h hasked
  cases h with
  | altLeft hfirst => exact .altLeft (ha v' ps hfirst hasked)
  | altRight hnone hsecond =>
    exact .altRight (hno v' ps hnone hsecond hasked) (hb v' ps hsecond hasked)

theorem KeptAt.opt (ha : KeptAt g n z k a p v)
    (hno : Reads g n k a v none → p v [] → Reads g (n + z.length) k a (v ++ z) none) :
    KeptAt g n z k (.opt a) p v := by
  intro v' ps h hasked
  cases h with
  | opt hfound => exact .opt (ha v' ps hfound hasked)
  | noOpt hnone => exact .noOpt (hno hnone hasked)

theorem keptAt_text {w : List Char} : KeptAt g n z k (.text w) p v := by
  intro v' ps h _
  cases h with
  | text hw => exact .text (by rw [hw, List.append_assoc])

/-- A sequence with nothing between its parts. -/
theorem KeptAt.next (before : List Char → Prop) {asked : List Char → Prop} (hk : k ≠ .spaced)
    (ha : KeptAt g n z k a (fun u _ => before u) v)
    (hb : ∀ u ps, Reads g n k a v (some (u, ps)) → KeptAt g n z k b (fun v' _ => asked v') u)
    (h : ∀ u v' ps, Reads g n k b u (some (v', ps)) → asked v' → before u) :
    KeptAt g n z k (.seq a b) (fun v' _ => asked v') v := by
  intro v' ps hreads hasked
  cases hreads with
  | seq hfirst hgap hsecond =>
    obtain ⟨rfl, -⟩ := Prod.mk.inj (Option.some.inj ((reads_gap hk _).unique hgap))
    exact .next hk (ha _ _ hfirst (h _ _ _ hsecond hasked)) (hb _ _ hfirst _ _ hsecond hasked)

/-- A sequence whose first part is found in the same way whatever is left of it. -/
theorem KeptAt.next_always {asked : List Char → Prop} (hk : k ≠ .spaced)
    (ha : KeptAt g n z k a (fun _ _ => True) v)
    (hb : ∀ u, KeptAt g n z k b (fun v' _ => asked v') u) :
    KeptAt g n z k (.seq a b) (fun v' _ => asked v') v :=
  .next (fun _ => True) hk ha (fun u _ _ => hb u) fun _ _ _ _ _ => trivial

theorem KeptAt.rule {r : R} (hbody : KeptAt g n z (k.inner (g.kind r)) (g.body r) q v)
    (h : ∀ v' i w ps, p v' (g.trace k r i w ps) → q v' ps) : KeptAt g n z k (.rule r) p v := by
  intro v' ps hreads hasked
  cases hreads with
  | rule hparts hw hi =>
    refine .rule (hbody _ _ hparts (h _ _ _ _ hasked)) (by rw [hw, List.append_assoc]) ?_
    rw [List.length_append]
    omega

/-- A rule is found in the same way if its body is, where only the text that is left counts. -/
theorem KeptAt.rule_rest {r : R} {asked : List Char → Prop}
    (hbody : KeptAt g n z (k.inner (g.kind r)) (g.body r) (fun v' _ => asked v') v) :
    KeptAt g n z k (.rule r) (fun v' _ => asked v') v :=
  hbody.rule fun _ _ _ _ h => h

/-- A repetition is found in the same way if its parts are and nothing is put into it: neither into
what is skipped between two parts, nor at its end. -/
theorem KeptAt.many (ha : ∀ u, u <:+ v → KeptAt g n z k a q u)
    (hstep : ∀ u u' v' ps rs qs, Reads g n .token (g.gap k) u (some (u', qs)) →
      Reads g n k (.many a) u' (some (v', rs)) → (∃ x, Reads g n k a u' (some x)) →
      p v' (ps ++ rs) → p v' rs ∧ q u ps ∧
        Reads g (n + z.length) .token (g.gap k) (u ++ z) (some (u' ++ z, qs)))
    (hlast : ∀ u ps, p u ps → q u ps)
    (hnone : ∀ u ps, p u ps → Reads g n k a u none → Reads g (n + z.length) k a (u ++ z) none)
    (hend : ∀ u u' ps qs, p u ps → Reads g n .token (g.gap k) u (some (u', qs)) →
      Reads g n k a u' none → ∃ y ys, Reads g (n + z.length) .token (g.gap k) (u ++ z)
        (some (y, ys)) ∧ Reads g (n + z.length) k a y none) :
    KeptAt g n z k (.many a) p v := by
  intro v' ps h hasked
  generalize hm : Expr.many a = m at h
  generalize ho : some (v', ps) = o at h
  generalize hk : k = k' at h
  induction h generalizing v' ps with
  | manyNone hno _ =>
    obtain rfl := hk
    obtain rfl := Expr.many.inj hm
    obtain ⟨rfl, rfl⟩ := Prod.mk.inj (Option.some.inj ho)
    exact .manyNone (hnone _ _ hasked hno)
  | manyLast hfirst hgap hno _ _ _ =>
    obtain rfl := hk
    obtain rfl := Expr.many.inj hm
    obtain ⟨rfl, rfl⟩ := Prod.mk.inj (Option.some.inj ho)
    obtain ⟨y, ys, hskip, hstop⟩ := hend _ _ _ _ hasked hgap hno
    exact .manyLast (ha _ (List.suffix_refl _) _ _ hfirst (hlast _ _ hasked)) hskip hstop
  | @manyMore _ _ _ _ _ cs₃ _ _ _ ps₁ _ hfirst hgap hnext hrest _ _ _ ih =>
    obtain rfl := hk
    obtain rfl := Expr.many.inj hm
    obtain ⟨rfl, rfl⟩ := Prod.mk.inj (Option.some.inj ho)
    obtain ⟨hlater, hbefore, hskip⟩ := hstep _ _ _ _ _ _ hgap hrest ⟨_, hnext⟩ hasked
    have hsuffix := hgap.suffix_some.trans hfirst.suffix_some
    -- the next part is the first one of the rest of the repetition
    have hbetween : q cs₃ ps₁ := by
      cases hrest with
      | manyNone hno => exact absurd (hno.unique hnext) (by simp)
      | manyLast hsame _ _ =>
        obtain ⟨rfl, rfl⟩ := Prod.mk.inj (Option.some.inj (hsame.unique hnext))
        exact hlast _ _ hlater
      | manyMore hsame hgap' hnext' hrest' =>
        obtain ⟨rfl, rfl⟩ := Prod.mk.inj (Option.some.inj (hsame.unique hnext))
        exact (hstep _ _ _ _ _ _ hgap' hrest' ⟨_, hnext'⟩ hlater).2.1
    exact .manyMore (ha _ (List.suffix_refl _) _ _ hfirst hbefore) hskip
      (ha _ hsuffix _ _ hnext hbetween)
      (ih (fun u hu => ha u (hu.trans hsuffix)) _ _ hlater rfl rfl rfl)
  | _ => exact absurd hm (by simp)

/-- A text up to a delimiter is found in the same way if it is closed. -/
theorem keptAt_delimited {r : R} {d : Char} (hkind : g.kind r = .token) (hd : d ≠ '\\')
    (hbody : ∀ n cs, Reads g n .token (g.body r) cs
      (some (Text.unescaped d (d == ·) cs, []))) :
    KeptAt g n z .tight (.rule r) (fun v' _ => v' ≠ []) v := by
  refine KeptAt.rule_rest ?_
  rw [hkind]
  intro v' ps h hclosed
  obtain ⟨rfl, rfl⟩ := Prod.mk.inj (Option.some.inj ((hbody _ v).unique h))
  obtain ⟨x, rest, hrest⟩ := List.exists_cons_of_ne_nil hclosed
  have hfurther := hbody (n + z.length) (v ++ z)
  rw [Text.unescaped_append (by simpa using hd) hrest] at hfurther
  rw [hrest]
  exact hfurther

end kept

/-- Whenever an expression is found in the text `s`, and what is left and the parses are as asked
for, it is found in the same way if `z` follows. -/
def Keeps (g : Grammar R) (s z : List Char) (k : Kind) (e : Expr R)
    (asked : List Char → List (Parse R) → Prop) : Prop :=
  ∀ v v' ps, v <:+ s → Reads g s.length k e v (some (v', ps)) → asked v' ps →
    Reads g (s.length + z.length) k e (v ++ z) (some (v' ++ z, ps))

section keeps

variable {s : List Char} {a b e : Expr R} {p q : List Char → List (Parse R) → Prop}

theorem keeps_of_steady (hok : Steady g c ok) (hz : z.head? = some c)
    (he : e.steady c ok k = true) : Keeps g s z k e p :=
  fun _ _ _ _ h _ => h.further hok hz he

theorem Keeps.seq (hok : Steady g c ok) (hz : z.head? = some c) (ha : Keeps g s z k a q)
    (hb : Keeps g s z k b p)
    (hfirst : ∀ v₁ v₂ v' ps qs rs, Reads g s.length .token (g.gap k) v₁ (some (v₂, qs)) →
      Reads g s.length k b v₂ (some (v', rs)) → p v' (ps ++ rs) → q v₁ ps)
    (hsecond : ∀ v' ps rs, p v' (ps ++ rs) → p v' rs) :
    Keeps g s z k (.seq a b) p := by
  intro v v' ps hv h hasked
  cases h with
  | seq hreads hgap hlast =>
    have hv₁ := hreads.suffix_some.trans hv
    have hv₂ := hgap.suffix_some.trans hv₁
    exact .seq (ha _ _ _ hv hreads (hfirst _ _ _ _ _ _ hgap hlast hasked))
      (hgap.further hok hz (hok.gap k)) (hb _ _ _ hv₂ hlast (hsecond _ _ _ hasked))

/-- A sequence of which the first part is found in any case. -/
theorem Keeps.andThen (hok : Steady g c ok) (hz : z.head? = some c)
    (ha : Keeps g s z k a fun _ _ => True) (hb : Keeps g s z k b p)
    (hsecond : ∀ v' ps rs, p v' (ps ++ rs) → p v' rs) :
    Keeps g s z k (.seq a b) p :=
  ha.seq hok hz hb (fun _ _ _ _ _ _ _ _ _ => trivial) hsecond

theorem Keeps.rule {r : R} (hbody : Keeps g s z (k.inner (g.kind r)) (g.body r) q)
    (h : ∀ v' i w ps, p v' (g.trace k r i w ps) → q v' ps) :
    Keeps g s z k (.rule r) p :=
  fun v v' ps hv hreads hasked =>
    KeptAt.rule (q := q) (fun v' ps => hbody v v' ps hv) h v' ps hreads hasked

theorem Keeps.mono (h : Keeps g s z k e q) (hasked : ∀ v' ps, p v' ps → q v' ps) :
    Keeps g s z k e p :=
  fun v v' ps hv hreads ha => h v v' ps hv hreads (hasked v' ps ha)

/-- A repetition is found in the same way if its end is. -/
theorem Keeps.many (hok : Steady g c ok) (hz : z.head? = some c)
    (ha : Keeps g s z k a fun _ _ => True) (hmore : ∀ v' ps rs, p v' (ps ++ rs) → p v' rs)
    (hend : ∀ v₁ v₂ ps, p v₁ ps →
      v₂ = v₁ ∨ (∃ qs, Reads g s.length .token (g.gap k) v₁ (some (v₂, qs))) →
      Reads g (s.length + z.length) k a (v₂ ++ z) none) :
    Keeps g s z k (.many a) p := by
  intro v v' ps hv h hasked
  have hskip : ∀ {u u' qs}, Reads g s.length .token (g.gap k) u (some (u', qs)) →
      Reads g (s.length + z.length) .token (g.gap k) (u ++ z) (some (u' ++ z, qs)) :=
    fun hgap => hgap.further hok hz (hok.gap k)
  refine KeptAt.many (p := p) (q := fun _ _ => True) (fun u hu v' ps => ha u v' ps (hu.trans hv))
    ?_ (fun _ _ _ => trivial) ?_ ?_ v' ps h hasked
  · exact fun u u' v' ps rs qs hgap _ _ hp => ⟨hmore _ _ _ hp, trivial, hskip hgap⟩
  · exact fun u ps hp _ => hend u u ps hp (.inl rfl)
  · exact fun u u' ps qs hp hgap _ => ⟨_, _, hskip hgap, hend u u' ps hp (.inr ⟨qs, hgap⟩)⟩

end keeps

end Constituency.Grammar
