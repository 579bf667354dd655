import Constituency.Proofs.Grammar.Reading

/-!
# The parts of a parse, one by one

`Shape` bounds what a parse can have as parts. Read from a text, an expression leaves exactly the
parses of the rules that it calls on its way, repetitions included (`Expr.Spells`), as long as it is
not part of a token. And parts stand in the order of the text, each of them within the text of the
whole (`Parse.InOrder`).
-/

namespace Constituency.Grammar

variable {R : Type} {g : Grammar R} {n lo mid hi : Nat} {k : Kind} {e : Expr R}
  {cs cs' : List Char} {ps qs : List (Parse R)}

/-! ## Which parts there are -/

/-- The parses that an expression leaves. -/
def Expr.Spells : Expr R → List (Parse R) → Prop
  | rule r, ps => ∃ p, ps = [p] ∧ p.rule = r
  | seq a b, ps => ∃ qs rs, a.Spells qs ∧ b.Spells rs ∧ ps = qs ++ rs
  | alt a b, ps => a.Spells ps ∨ b.Spells ps
  | many e, ps => ∃ pss : List (List (Parse R)), (∀ qs ∈ pss, e.Spells qs) ∧ ps = pss.flatten
  | opt e, ps => e.Spells ps ∨ ps = []
  | _, ps => ps = []

/-- A parse that has the parts of its rule, unless it is a token, and so has each of them. -/
inductive Parse.Spelled (g : Grammar R) : Parse R → Prop where
  | node {r : R} {i : Nat} {cs : List Char} {ps : List (Parse R)} :
    (g.kind r ≠ .token → (g.body r).Spells ps) →
    (g.kind r ≠ .token → ∀ p ∈ ps, Spelled g p) → Spelled g (.node r i cs ps)

theorem Parse.Spelled.parts {p : Parse R} (h : p.Spelled g) (hkind : g.kind p.rule ≠ .token) :
    (g.body p.rule).Spells p.parts ∧ ∀ q ∈ p.parts, q.Spelled g := by
  cases h with
  | node hspells hparts => exact ⟨hspells hkind, hparts hkind⟩

theorem Kind.outer_ne_token (hk : k ≠ .token) (called : Kind) : k.outer called ≠ .token := by
  unfold Kind.outer
  split
  · decide
  · exact hk

theorem Kind.inner_ne_token (hk : k ≠ .token) {called : Kind} (hcalled : called ≠ .token) :
    k.inner called ≠ .token := by
  unfold Kind.inner
  rw [if_neg (by simpa using hcalled)]
  exact Kind.outer_ne_token hk called

theorem trace_of_not_token (hk : k ≠ .token) (r : R) (i : Nat) (w : List Char)
    (ps : List (Parse R)) : g.trace k r i w ps = [.node r i w ps] := by
  have houter := Kind.outer_ne_token hk (g.kind r)
  rw [trace, if_neg (by simpa using houter)]

/-- **What is read outside a token is spelled out in parts.** -/
theorem Reads.spells {o : Answer R} (h : Reads g n k e cs o) (hk : k ≠ .token) :
    ∀ x ∈ o, e.Spells x.2 ∧ ∀ p ∈ x.2, p.Spelled g := by
  induction h with
  | noText | noChar | noTextEnd | noRule | noFirst | noSecond | notAbsent =>
    exact fun x hx => absurd hx (by simp)
  | text | char | textEnd | absent =>
    intro x hx
    obtain rfl := Option.some.inj hx
    exact ⟨rfl, fun p hp => absurd hp List.not_mem_nil⟩
  | noOpt =>
    intro x hx
    obtain rfl := Option.some.inj hx
    exact ⟨.inr rfl, fun p hp => absurd hp List.not_mem_nil⟩
  | manyNone =>
    intro x hx
    obtain rfl := Option.some.inj hx
    exact ⟨⟨[], fun _ hq => absurd hq List.not_mem_nil, rfl⟩,
      fun p hp => absurd hp List.not_mem_nil⟩
  | @rule k r i w _ _ ps _ _ _ ih =>
    intro x hx
    obtain rfl := Option.some.inj hx
    rw [trace_of_not_token hk]
    refine ⟨⟨_, rfl, rfl⟩, fun p hp => ?_⟩
    obtain rfl := List.mem_singleton.mp hp
    exact .node (fun hr => (ih (Kind.inner_ne_token hk hr) _ rfl).1)
      fun hr => (ih (Kind.inner_ne_token hk hr) _ rfl).2
  | seq _ _ _ iha _ ihb =>
    intro x hx
    obtain rfl := Option.some.inj hx
    obtain ⟨ha, hpa⟩ := iha hk _ rfl
    obtain ⟨hb, hpb⟩ := ihb hk _ rfl
    exact ⟨⟨_, _, ha, hb, rfl⟩, fun p hp => (List.mem_append.mp hp).elim (hpa p) (hpb p)⟩
  | altLeft _ ih => exact fun x hx => ⟨.inl (ih hk x hx).1, (ih hk x hx).2⟩
  | altRight _ _ _ ih => exact fun x hx => ⟨.inr (ih hk x hx).1, (ih hk x hx).2⟩
  | opt _ ih => exact fun x hx => ⟨.inl (ih hk x hx).1, (ih hk x hx).2⟩
  | manyLast _ _ _ ih _ _ =>
    intro x hx
    obtain rfl := Option.some.inj hx
    obtain ⟨ha, hparts⟩ := ih hk _ rfl
    exact ⟨⟨[_], fun q hq => List.mem_singleton.mp hq ▸ ha, (List.append_nil _).symm⟩, hparts⟩
  | manyMore _ _ _ _ iha _ _ ihrest =>
    intro x hx
    obtain rfl := Option.some.inj hx
    obtain ⟨ha, hpa⟩ := iha hk _ rfl
    obtain ⟨⟨pss, hpss, rfl⟩, hprest⟩ := ihrest hk _ rfl
    exact ⟨⟨_ :: pss, List.forall_mem_cons.mpr ⟨ha, hpss⟩, rfl⟩,
      fun p hp => (List.mem_append.mp hp).elim (hpa p) (hprest p)⟩

/-- Repeating a rule leaves parses of that rule. -/
theorem Expr.Spells.many_rule {r : R} (h : (Expr.many (.rule r)).Spells ps) :
    ∀ p ∈ ps, p.rule = r := by
  obtain ⟨pss, hpss, rfl⟩ := h
  intro p hp
  obtain ⟨qs, hqs, hp⟩ := List.mem_flatten.mp hp
  obtain ⟨q, rfl, hq⟩ := hpss qs hqs
  exact List.mem_singleton.mp hp ▸ hq

/-! ## Where they are -/

namespace Parse

mutual

/-- Whether the parts of a parse stand one behind the other, within its text. -/
def InOrder : Parse R → Prop
  | node _ i cs ps => AllInOrder i ps (i + cs.length)

/-- Whether several parses stand one behind the other, between two places. -/
def AllInOrder (lo : Nat) : List (Parse R) → Nat → Prop
  | [], hi => lo ≤ hi
  | p :: ps, hi => lo ≤ p.start ∧ p.InOrder ∧ AllInOrder (p.start + p.text.length) ps hi

end

theorem AllInOrder.weaken {hi' : Nat} (h : AllInOrder lo ps hi) (hhi : hi ≤ hi') :
    AllInOrder lo ps hi' := by
  induction ps generalizing lo with
  | nil => exact Nat.le_trans h hhi
  | cons p ps ih => exact ⟨h.1, h.2.1, ih h.2.2⟩

theorem AllInOrder.le (h : AllInOrder lo ps hi) : lo ≤ hi := by
  induction ps generalizing lo with
  | nil => exact h
  | cons p ps ih => exact Nat.le_trans h.1 (Nat.le_trans (Nat.le_add_right ..) (ih h.2.2))

theorem AllInOrder.append (hps : AllInOrder lo ps mid) (hqs : AllInOrder mid qs hi) :
    AllInOrder lo (ps ++ qs) hi := by
  induction ps generalizing lo with
  | nil =>
    cases qs with
    | nil => exact Nat.le_trans hps hqs
    | cons q qs => exact ⟨Nat.le_trans hps hqs.1, hqs.2⟩
  | cons p ps ih => exact ⟨hps.1, hps.2.1, ih hps.2.2⟩

theorem AllInOrder.start {lo' : Nat} (h : AllInOrder lo ps hi) (hlo : lo' ≤ lo) :
    AllInOrder lo' ps hi := by
  cases ps with
  | nil => exact Nat.le_trans hlo h
  | cons p ps => exact ⟨Nat.le_trans hlo h.1, h.2⟩

theorem AllInOrder.filter (h : AllInOrder lo ps hi) (f : Parse R → Bool) :
    AllInOrder lo (ps.filter f) hi := by
  induction ps generalizing lo with
  | nil => exact h
  | cons p ps ih =>
    rw [List.filter_cons]
    split
    · exact ⟨h.1, h.2.1, ih h.2.2⟩
    · exact (ih h.2.2).start (Nat.le_trans h.1 (Nat.le_add_right ..))

end Parse

/-- **What is read leaves parts in the order of the text.** -/
theorem Reads.inOrder {o : Answer R} (h : Reads g n k e cs o) (hlo : lo + cs.length = n) :
    ∀ x ∈ o, ∃ hi, hi + x.1.length = n ∧ Parse.AllInOrder lo x.2 hi := by
  induction h generalizing lo with
  | noText | noChar | noTextEnd | noRule | noFirst | noSecond | notAbsent =>
    exact fun x hx => absurd hx (by simp)
  | text hw =>
    intro x hx
    obtain rfl := Option.some.inj hx
    subst hw
    rw [List.length_append] at hlo
    exact ⟨_, by rw [← hlo, Nat.add_assoc], Nat.le_add_right ..⟩
  | char =>
    intro x hx
    obtain rfl := Option.some.inj hx
    rw [List.length_cons] at hlo
    refine ⟨lo + 1, ?_, Nat.le_succ lo⟩
    dsimp only
    omega
  | textEnd | absent | noOpt | manyNone =>
    intro x hx
    obtain rfl := Option.some.inj hx
    exact ⟨lo, hlo, Nat.le_refl lo⟩
  | @rule k r i w _ _ ps _ hw hi ih =>
    intro x hx
    obtain rfl := Option.some.inj hx
    obtain rfl : lo = i := by omega
    obtain ⟨hi', hhi, hparts⟩ := ih hlo _ rfl
    obtain rfl : hi' = lo + w.length := by
      rw [hw, List.length_append] at hlo
      dsimp only at hhi
      omega
    refine ⟨_, hhi, ?_⟩
    unfold trace
    split
    · exact Nat.le_add_right ..
    · exact ⟨Nat.le_refl lo, hparts, Nat.le_refl _⟩
  | seq _ _ _ iha ihgap ihb =>
    intro x hx
    obtain rfl := Option.some.inj hx
    obtain ⟨_, hm, ha⟩ := iha hlo _ rfl
    obtain ⟨_, hm', hgap⟩ := ihgap hm _ rfl
    obtain ⟨hi, hhi, hb⟩ := ihb hm' _ rfl
    exact ⟨hi, hhi, (ha.weaken hgap.le).append hb⟩
  | altLeft _ ih | opt _ ih => exact ih hlo
  | altRight _ _ _ ih => exact ih hlo
  | manyLast _ _ _ ih _ _ =>
    intro x hx
    obtain rfl := Option.some.inj hx
    exact ih hlo _ rfl
  | manyMore _ _ _ _ iha ihgap _ ihrest =>
    intro x hx
    obtain rfl := Option.some.inj hx
    obtain ⟨_, hm, ha⟩ := iha hlo _ rfl
    obtain ⟨_, hm', hgap⟩ := ihgap hm _ rfl
    obtain ⟨hi, hhi, hrest⟩ := ihrest hm' _ rfl
    exact ⟨hi, hhi, (ha.weaken hgap.le).append hrest⟩

end Constituency.Grammar
