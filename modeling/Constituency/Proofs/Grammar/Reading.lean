import Constituency.Grammar.Recognizer

/-!
# What expressions read

The recognizer remembers what it attempted, and nests calls only so deep. Neither belongs to what a
text stands for. That is said here by itself (`Reads`): an expression, read from a text, comes to
the rest of the text and the parses of the rules it called, or to nothing.

Whether the text starts there is not tested inside a grammar. So what an expression comes to depends
on the text from there on only, except that parses say where they start (`Reads.moved`), for which
the length of the whole text must be known. There is one answer at most (`Reads.unique`).
-/

namespace Constituency.Grammar

variable {R : Type}

/-- How a rule runs that is called from a rule of a kind, as far as its own parse is concerned. -/
def Kind.outer (k called : Kind) : Kind := if called == .tight then .tight else k

/-- How the body of a called rule runs. -/
def Kind.inner (k called : Kind) : Kind := if called == .token then .token else k.outer called

/-- What may stand between the parts of a sequence. -/
def gap (g : Grammar R) (k : Kind) : Expr R := if k == .spaced then .opt g.space else .text []

/-- The parse that a called rule leaves, if it leaves one. -/
def trace (g : Grammar R) (k : Kind) (r : R) (i : Nat) (cs : List Char) (ps : List (Parse R)) :
    List (Parse R) :=
  if k.outer (g.kind r) == .token then [] else [.node r i cs ps]

/-- What an expression comes to: the rest of the text and the parses of the rules called, or
nothing. -/
abbrev Answer (R : Type) := Option (List Char × List (Parse R))

section

variable (g : Grammar R) (n : Nat)

/-- What an expression comes to when it is read from what is left of a text of `n` characters. A
repetition ends before what would have to be skipped for its next part. -/
inductive Reads : Kind → Expr R → List Char → Answer R → Prop where
  | text {k : Kind} {w cs cs' : List Char} : cs = w ++ cs' → Reads k (.text w) cs (some (cs', []))
  | noText {k : Kind} {w cs : List Char} : ¬ w <+: cs → Reads k (.text w) cs none
  | char {k : Kind} {p : Char → Bool} {x : Char} {cs : List Char} : p x = true →
      Reads k (.char p) (x :: cs) (some (cs, []))
  | noChar {k : Kind} {p : Char → Bool} {cs : List Char} : (∀ x ∈ cs.head?, p x = false) →
      Reads k (.char p) cs none
  | textEnd {k : Kind} : Reads k .textEnd [] (some ([], []))
  | noTextEnd {k : Kind} {cs : List Char} : cs ≠ [] → Reads k .textEnd cs none
  | rule {k : Kind} {r : R} {i : Nat} {w cs cs' : List Char} {ps : List (Parse R)} :
      Reads (k.inner (g.kind r)) (g.body r) cs (some (cs', ps)) → cs = w ++ cs' →
      i + cs.length = n → Reads k (.rule r) cs (some (cs', g.trace k r i w ps))
  | noRule {k : Kind} {r : R} {cs : List Char} :
      Reads (k.inner (g.kind r)) (g.body r) cs none → Reads k (.rule r) cs none
  | seq {k : Kind} {a b : Expr R} {cs cs₁ cs₂ cs' : List Char} {ps qs rs : List (Parse R)} :
      Reads k a cs (some (cs₁, ps)) → Reads .token (g.gap k) cs₁ (some (cs₂, qs)) →
      Reads k b cs₂ (some (cs', rs)) → Reads k (.seq a b) cs (some (cs', ps ++ rs))
  | noFirst {k : Kind} {a b : Expr R} {cs : List Char} : Reads k a cs none →
      Reads k (.seq a b) cs none
  | noSecond {k : Kind} {a b : Expr R} {cs cs₁ cs₂ : List Char} {ps qs : List (Parse R)} :
      Reads k a cs (some (cs₁, ps)) → Reads .token (g.gap k) cs₁ (some (cs₂, qs)) →
      Reads k b cs₂ none → Reads k (.seq a b) cs none
  | altLeft {k : Kind} {a b : Expr R} {cs cs' : List Char} {ps : List (Parse R)} :
      Reads k a cs (some (cs', ps)) → Reads k (.alt a b) cs (some (cs', ps))
  | altRight {k : Kind} {a b : Expr R} {cs : List Char} {o : Answer R} :
      Reads k a cs none → Reads k b cs o → Reads k (.alt a b) cs o
  | opt {k : Kind} {a : Expr R} {cs cs' : List Char} {ps : List (Parse R)} :
      Reads k a cs (some (cs', ps)) → Reads k (.opt a) cs (some (cs', ps))
  | noOpt {k : Kind} {a : Expr R} {cs : List Char} : Reads k a cs none →
      Reads k (.opt a) cs (some (cs, []))
  | manyNone {k : Kind} {a : Expr R} {cs : List Char} : Reads k a cs none →
      Reads k (.many a) cs (some (cs, []))
  | manyLast {k : Kind} {a : Expr R} {cs cs₁ cs₂ : List Char} {ps qs : List (Parse R)} :
      Reads k a cs (some (cs₁, ps)) → Reads .token (g.gap k) cs₁ (some (cs₂, qs)) →
      Reads k a cs₂ none → Reads k (.many a) cs (some (cs₁, ps))
  | manyMore {k : Kind} {a : Expr R} {cs cs₁ cs₂ cs₃ cs' : List Char}
      {ps qs ps₁ rs : List (Parse R)} :
      Reads k a cs (some (cs₁, ps)) → Reads .token (g.gap k) cs₁ (some (cs₂, qs)) →
      Reads k a cs₂ (some (cs₃, ps₁)) → Reads k (.many a) cs₂ (some (cs', rs)) →
      Reads k (.many a) cs (some (cs', ps ++ rs))
  | absent {k : Kind} {a : Expr R} {cs : List Char} : Reads k a cs none →
      Reads k (.absent a) cs (some (cs, []))
  | notAbsent {k : Kind} {a : Expr R} {cs cs' : List Char} {ps : List (Parse R)} :
      Reads k a cs (some (cs', ps)) → Reads k (.absent a) cs none

end

/-! ## Where a parse starts -/

namespace Parse

mutual

/-- A parse in a text that has `d` more characters before it. -/
def moved (d : Nat) : Parse R → Parse R
  | node r i cs ps => node r (i + d) cs (movedAll d ps)

/-- Several parses in a text that has `d` more characters before them. -/
def movedAll (d : Nat) : List (Parse R) → List (Parse R)
  | [] => []
  | p :: ps => moved d p :: movedAll d ps

end

theorem movedAll_eq (d : Nat) (ps : List (Parse R)) : movedAll d ps = ps.map (moved d) := by
  induction ps with
  | nil => rfl
  | cons p ps ih => rw [movedAll, ih, List.map_cons]

theorem moved_rule (d : Nat) (p : Parse R) : (p.moved d).rule = p.rule := by
  cases p
  rfl

theorem moved_text (d : Nat) (p : Parse R) : (p.moved d).text = p.text := by
  cases p
  rfl

theorem moved_parts (d : Nat) (p : Parse R) : (p.moved d).parts = p.parts.map (moved d) := by
  cases p
  exact movedAll_eq _ _

mutual

theorem moved_zero : ∀ p : Parse R, p.moved 0 = p
  | node _ _ _ ps => by rw [moved, movedAll_zero ps, Nat.add_zero]

theorem movedAll_zero : ∀ ps : List (Parse R), movedAll 0 ps = ps
  | [] => rfl
  | p :: ps => by rw [movedAll, moved_zero p, movedAll_zero ps]

end

end Parse

/-- What an expression comes to in a text that has `d` more characters before. -/
def Answer.moved (d : Nat) (o : Answer R) : Answer R :=
  o.map fun x => (x.1, x.2.map (Parse.moved d))

variable {g : Grammar R} {n d : Nat} {k : Kind} {e : Expr R} {cs cs' : List Char}
  {ps qs : List (Parse R)}

theorem Answer.moved_zero (o : Answer R) : o.moved 0 = o := by
  rcases o with _ | ⟨cs, ps⟩
  · rfl
  · rw [moved, Option.map_some, ← Parse.movedAll_eq, Parse.movedAll_zero]

theorem trace_moved (r : R) (i : Nat) (w : List Char) (ps : List (Parse R)) :
    g.trace k r (i + d) w (ps.map (Parse.moved d)) =
      (g.trace k r i w ps).map (Parse.moved d) := by
  unfold trace
  split
  · rfl
  · rw [List.map_singleton, Parse.moved, Parse.movedAll_eq]

/-! ## One answer at most

An expression comes to no second answer if its parts come to none. For each form of expressions this
is an inversion of the rules for it.
-/

/-- Whether an expression comes to this answer if it comes to any. -/
def OnlyReads (g : Grammar R) (n : Nat) (k : Kind) (e : Expr R) (cs : List Char) (o : Answer R) :
    Prop :=
  ∀ o', Reads g n k e cs o' → o' = o

section only

variable {a b : Expr R} {cs₁ cs₂ cs₃ : List Char} {rs : List (Parse R)} {o : Answer R}

theorem OnlyReads.rest_eq (h : OnlyReads g n k a cs (some (cs₁, ps)))
    (h' : Reads g n k a cs (some (cs₂, qs))) : cs₂ = cs₁ ∧ qs = ps :=
  Prod.mk.inj (Option.some.inj (h _ h'))

theorem OnlyReads.not_none (h : OnlyReads g n k a cs (some (cs₁, ps)))
    (h' : Reads g n k a cs none) : False :=
  absurd (h _ h') (by simp)

theorem OnlyReads.not_some (h : OnlyReads g n k a cs none)
    (h' : Reads g n k a cs (some (cs₁, ps))) : False :=
  absurd (h _ h') (by simp)

theorem onlyReads_text {w : List Char} (h : cs = w ++ cs₁) :
    OnlyReads g n k (.text w) cs (some (cs₁, [])) := by
  intro o h'
  subst h
  cases h' with
  | text hw => rw [List.append_cancel_left hw]
  | noText hno => exact absurd (List.prefix_append ..) hno

theorem onlyReads_noText {w : List Char} (h : ¬ w <+: cs) :
    OnlyReads g n k (.text w) cs none := by
  intro o h'
  cases h' with
  | text hw => exact absurd (hw ▸ List.prefix_append ..) h
  | noText => rfl

theorem onlyReads_char {p : Char → Bool} {x : Char} (h : p x = true) :
    OnlyReads g n k (.char p) (x :: cs) (some (cs, [])) := by
  intro o h'
  cases h' with
  | char => rfl
  | noChar hno => exact absurd h (by simp [hno _ rfl])

theorem onlyReads_noChar {p : Char → Bool} (h : ∀ x ∈ cs.head?, p x = false) :
    OnlyReads g n k (.char p) cs none := by
  intro o h'
  cases h' with
  | char hp => exact absurd hp (by simp [h _ rfl])
  | noChar => rfl

theorem onlyReads_textEnd : OnlyReads g n k .textEnd [] (some ([], [])) := by
  intro o h'
  cases h' with
  | textEnd => rfl
  | noTextEnd hne => exact absurd rfl hne

theorem onlyReads_noTextEnd (h : cs ≠ []) : OnlyReads g n k .textEnd cs none := by
  intro o h'
  cases h' with
  | textEnd => exact absurd rfl h
  | noTextEnd => rfl

theorem OnlyReads.rule {r : R} {i : Nat} {w : List Char}
    (h : OnlyReads g n (k.inner (g.kind r)) (g.body r) cs (some (cs₁, ps))) (hw : cs = w ++ cs₁)
    (hi : i + cs.length = n) : OnlyReads g n k (.rule r) cs (some (cs₁, g.trace k r i w ps)) := by
  intro o h'
  cases h' with
  | @rule _ _ j _ _ _ _ hbody hw' hj =>
    obtain ⟨rfl, rfl⟩ := h.rest_eq hbody
    obtain rfl := List.append_cancel_right (hw.symm.trans hw')
    obtain rfl : j = i := by omega
    rfl
  | noRule hbody => exact (h.not_none hbody).elim

theorem OnlyReads.noRule {r : R} (h : OnlyReads g n (k.inner (g.kind r)) (g.body r) cs none) :
    OnlyReads g n k (.rule r) cs none := by
  intro o h'
  cases h' with
  | rule hbody _ _ => exact (h.not_some hbody).elim
  | noRule => rfl

theorem OnlyReads.seq (ha : OnlyReads g n k a cs (some (cs₁, ps)))
    (hgap : OnlyReads g n .token (g.gap k) cs₁ (some (cs₂, qs)))
    (hb : OnlyReads g n k b cs₂ (some (cs₃, rs))) :
    OnlyReads g n k (.seq a b) cs (some (cs₃, ps ++ rs)) := by
  intro o h'
  cases h' with
  | seq ha' hgap' hb' =>
    obtain ⟨rfl, rfl⟩ := ha.rest_eq ha'
    obtain ⟨rfl, -⟩ := hgap.rest_eq hgap'
    obtain ⟨rfl, rfl⟩ := hb.rest_eq hb'
    rfl
  | noFirst ha' => exact (ha.not_none ha').elim
  | noSecond ha' hgap' hb' =>
    obtain ⟨rfl, -⟩ := ha.rest_eq ha'
    obtain ⟨rfl, -⟩ := hgap.rest_eq hgap'
    exact (hb.not_none hb').elim

theorem OnlyReads.noFirst (ha : OnlyReads g n k a cs none) :
    OnlyReads g n k (.seq a b) cs none := by
  intro o h'
  cases h' with
  | seq ha' _ _ => exact (ha.not_some ha').elim
  | noFirst | noSecond => rfl

theorem OnlyReads.noSecond (ha : OnlyReads g n k a cs (some (cs₁, ps)))
    (hgap : OnlyReads g n .token (g.gap k) cs₁ (some (cs₂, qs)))
    (hb : OnlyReads g n k b cs₂ none) : OnlyReads g n k (.seq a b) cs none := by
  intro o h'
  cases h' with
  | seq ha' hgap' hb' =>
    obtain ⟨rfl, -⟩ := ha.rest_eq ha'
    obtain ⟨rfl, -⟩ := hgap.rest_eq hgap'
    exact (hb.not_some hb').elim
  | noFirst | noSecond => rfl

theorem OnlyReads.altLeft (ha : OnlyReads g n k a cs (some (cs₁, ps))) :
    OnlyReads g n k (.alt a b) cs (some (cs₁, ps)) := by
  intro o h'
  cases h' with
  | altLeft ha' => exact ha _ ha'
  | altRight ha' _ => exact (ha.not_none ha').elim

theorem OnlyReads.altRight (ha : OnlyReads g n k a cs none) (hb : OnlyReads g n k b cs o) :
    OnlyReads g n k (.alt a b) cs o := by
  intro o' h'
  cases h' with
  | altLeft ha' => exact (ha.not_some ha').elim
  | altRight _ hb' => exact hb _ hb'

theorem OnlyReads.opt (ha : OnlyReads g n k a cs (some (cs₁, ps))) :
    OnlyReads g n k (.opt a) cs (some (cs₁, ps)) := by
  intro o h'
  cases h' with
  | opt ha' => exact ha _ ha'
  | noOpt ha' => exact (ha.not_none ha').elim

theorem OnlyReads.noOpt (ha : OnlyReads g n k a cs none) :
    OnlyReads g n k (.opt a) cs (some (cs, [])) := by
  intro o h'
  cases h' with
  | opt ha' => exact (ha.not_some ha').elim
  | noOpt => rfl

theorem OnlyReads.manyNone (ha : OnlyReads g n k a cs none) :
    OnlyReads g n k (.many a) cs (some (cs, [])) := by
  intro o h'
  cases h' with
  | manyNone => rfl
  | manyLast ha' _ _ | manyMore ha' _ _ _ => exact (ha.not_some ha').elim

theorem OnlyReads.manyLast (ha : OnlyReads g n k a cs (some (cs₁, ps)))
    (hgap : OnlyReads g n .token (g.gap k) cs₁ (some (cs₂, qs)))
    (hnext : OnlyReads g n k a cs₂ none) : OnlyReads g n k (.many a) cs (some (cs₁, ps)) := by
  intro o h'
  cases h' with
  | manyNone ha' => exact (ha.not_none ha').elim
  | manyLast ha' _ _ => exact ha _ ha'
  | manyMore ha' hgap' hnext' _ =>
    obtain ⟨rfl, -⟩ := ha.rest_eq ha'
    obtain ⟨rfl, -⟩ := hgap.rest_eq hgap'
    exact (hnext.not_some hnext').elim

theorem OnlyReads.manyMore {ps₁ : List (Parse R)} (ha : OnlyReads g n k a cs (some (cs₁, ps)))
    (hgap : OnlyReads g n .token (g.gap k) cs₁ (some (cs₂, qs)))
    (hnext : OnlyReads g n k a cs₂ (some (cs₃, ps₁)))
    (hrest : OnlyReads g n k (.many a) cs₂ (some (cs', rs))) :
    OnlyReads g n k (.many a) cs (some (cs', ps ++ rs)) := by
  intro o h'
  cases h' with
  | manyNone ha' => exact (ha.not_none ha').elim
  | manyLast ha' hgap' hnext' =>
    obtain ⟨rfl, -⟩ := ha.rest_eq ha'
    obtain ⟨rfl, -⟩ := hgap.rest_eq hgap'
    exact (hnext.not_none hnext').elim
  | manyMore ha' hgap' _ hrest' =>
    obtain ⟨rfl, rfl⟩ := ha.rest_eq ha'
    obtain ⟨rfl, -⟩ := hgap.rest_eq hgap'
    obtain ⟨rfl, rfl⟩ := hrest.rest_eq hrest'
    rfl

theorem OnlyReads.absent (ha : OnlyReads g n k a cs none) :
    OnlyReads g n k (.absent a) cs (some (cs, [])) := by
  intro o h'
  cases h' with
  | absent => rfl
  | notAbsent ha' => exact (ha.not_some ha').elim

theorem OnlyReads.notAbsent (ha : OnlyReads g n k a cs (some (cs₁, ps))) :
    OnlyReads g n k (.absent a) cs none := by
  intro o h'
  cases h' with
  | absent ha' => exact (ha.not_none ha').elim
  | notAbsent => rfl

end only

/-- **What an expression comes to does not depend on what stands before**, except that there its
parses start elsewhere. -/
theorem Reads.onlyReads {o : Answer R} (h : Reads g n k e cs o) :
    OnlyReads g (n + d) k e cs (o.moved d) := by
  induction h with
  | text hw => exact onlyReads_text hw
  | noText hno => exact onlyReads_noText hno
  | char hp => exact onlyReads_char hp
  | noChar hno => exact onlyReads_noChar hno
  | textEnd => exact onlyReads_textEnd
  | noTextEnd hne => exact onlyReads_noTextEnd hne
  | rule _ hw hi ih =>
    have hrule := OnlyReads.rule ih hw (by rw [← hi, Nat.add_right_comm])
    rwa [trace_moved] at hrule
  | noRule _ ih => exact .noRule ih
  | seq _ _ _ iha ihgap ihb =>
    have hseq := OnlyReads.seq iha ihgap ihb
    rwa [← List.map_append] at hseq
  | noFirst _ ih => exact .noFirst ih
  | noSecond _ _ _ iha ihgap ihb => exact .noSecond iha ihgap ihb
  | altLeft _ ih => exact .altLeft ih
  | altRight _ _ iha ihb => exact .altRight iha ihb
  | opt _ ih => exact .opt ih
  | noOpt _ ih => exact .noOpt ih
  | manyNone _ ih => exact .manyNone ih
  | manyLast _ _ _ iha ihgap ihnext => exact .manyLast iha ihgap ihnext
  | manyMore _ _ _ _ iha ihgap ihnext ihrest =>
    have hmany := OnlyReads.manyMore iha ihgap ihnext ihrest
    rwa [← List.map_append] at hmany
  | absent _ ih => exact .absent ih
  | notAbsent _ ih => exact .notAbsent ih

theorem Reads.moved {o o' : Answer R} (h : Reads g n k e cs o) (h' : Reads g (n + d) k e cs o') :
    o' = o.moved d :=
  h.onlyReads o' h'

/-- **There is one answer at most.** -/
theorem Reads.unique {o o' : Answer R} (h : Reads g n k e cs o) (h' : Reads g n k e cs o') :
    o' = o := by
  rw [h.moved (d := 0) h', Answer.moved_zero]

/-- An expression takes text from the front. -/
theorem Reads.suffix {o : Answer R} (h : Reads g n k e cs o) :
    ∀ x ∈ o, ∃ w, cs = w ++ x.1 := by
  induction h with
  | text hw => exact fun x hx => ⟨_, by obtain rfl := Option.some.inj hx; exact hw⟩
  | char _ => exact fun x hx => ⟨[_], by obtain rfl := Option.some.inj hx; rfl⟩
  | textEnd | noOpt _ _ | manyNone _ _ | absent _ _ =>
    exact fun x hx => ⟨[], by obtain rfl := Option.some.inj hx; rfl⟩
  | rule _ hw _ _ => exact fun x hx => ⟨_, by obtain rfl := Option.some.inj hx; exact hw⟩
  | noText | noChar | noTextEnd | noRule | noFirst | noSecond | notAbsent =>
    exact fun x hx => absurd hx (by simp)
  | seq _ _ _ iha ihgap ihb =>
    intro x hx
    obtain rfl := Option.some.inj hx
    obtain ⟨u, rfl⟩ := iha _ rfl
    obtain ⟨v, rfl⟩ := ihgap _ rfl
    obtain ⟨w, rfl⟩ := ihb _ rfl
    exact ⟨u ++ (v ++ w), by simp only [List.append_assoc]⟩
  | altLeft _ ih | opt _ ih => exact ih
  | altRight _ _ _ ih => exact ih
  | manyLast _ _ _ ih _ _ =>
    intro x hx
    obtain rfl := Option.some.inj hx
    exact ih _ rfl
  | manyMore _ _ _ _ iha ihgap _ ihrest =>
    intro x hx
    obtain rfl := Option.some.inj hx
    obtain ⟨u, rfl⟩ := iha _ rfl
    obtain ⟨v, rfl⟩ := ihgap _ rfl
    obtain ⟨w, rfl⟩ := ihrest _ rfl
    exact ⟨u ++ (v ++ w), by simp only [List.append_assoc]⟩

theorem Reads.suffix_some (h : Reads g n k e cs (some (cs', ps))) : cs' <:+ cs := by
  obtain ⟨w, rfl⟩ := h.suffix _ rfl
  exact List.suffix_append ..

/-- A rule is read as its body is. -/
theorem reads_rule {r : R} (h : Reads g n (k.inner (g.kind r)) (g.body r) cs (some (cs', ps)))
    (hn : cs.length ≤ n) : ∃ i w, cs = w ++ cs' ∧ i + cs.length = n ∧
      Reads g n k (.rule r) cs (some (cs', g.trace k r i w ps)) := by
  obtain ⟨w, hw⟩ := h.suffix _ rfl
  exact ⟨n - cs.length, w, hw, Nat.sub_add_cancel hn, .rule h hw (Nat.sub_add_cancel hn)⟩

end Constituency.Grammar
