import Mathlib.Data.List.Chain
import Constituency.Proofs.Text.Chars
import Constituency.Proofs.Pattern.Captures
import Constituency.Surgery.Replacement

/-!
# Replacement texts written and read back

Any list of parts that a replacement can consist of is written with a backslash before every
character of its texts, with braces around the numbers of its groups and around the names of its
nodes. Reading what is written gives the list back, and a list that is read from any text at all can
be written so (`Replacement.composed_iff`).

Characters that are taken literally are gathered until a reference or the end of the text comes. So
no text is empty, and there is always a reference between two texts (`Replacement.Composed`); the
rest is what a reference must be to be accepted.
-/

namespace Constituency

/-- A part as it is written. -/
def ReplacementPart.written : ReplacementPart → List Char
  | text cs => cs.flatMap fun c => ['\\', c]
  | group n => '$' :: '\x7b' :: ((toString n).toList ++ ['\x7d'])
  | label name => '=' :: '\x7b' :: (name ++ ['\x7d'])

/-- A text is not empty, the number of a group fits a word of 64 bits, and a name is not empty and
has no closing brace. -/
def ReplacementPart.IsProper : ReplacementPart → Prop
  | text cs => cs ≠ []
  | group n => n < UInt64.size
  | label name => name ≠ [] ∧ '\x7d' ∉ name

/-- Whether a part is a text. -/
def ReplacementPart.isText : ReplacementPart → Bool
  | text _ => true
  | _ => false

/-- Two parts that are not both texts, which would be one text. -/
def ReplacementPart.Apart (p q : ReplacementPart) : Prop :=
  p.isText = true → q.isText = false

namespace Replacement

open ReplacementPart

/-- A replacement as it is written. -/
def written (parts : List ReplacementPart) : List Char :=
  parts.flatMap ReplacementPart.written

/-- Parts that a replacement can consist of, one behind the other. -/
structure Composed (parts : List ReplacementPart) : Prop where
  proper : ∀ p ∈ parts, p.IsProper
  apart : parts.IsChain Apart

variable {fuel : Nat} {pending rest : List Char} {parts : List ReplacementPart}

/-! ## What is written is read back -/

theorem partsFrom_nil (fuel : Nat) (pending : List Char) :
    partsFrom fuel pending [] = .ok (literalPart pending) := by
  cases fuel <;> rfl

/-- Escaped characters are taken literally, each at the cost of one reading step. -/
theorem partsFrom_escaped (fuel : Nat) (pending cs rest : List Char) :
    partsFrom (fuel + cs.length) pending ((text cs).written ++ rest) =
      partsFrom fuel (cs.reverse ++ pending) rest := by
  induction cs generalizing pending with
  | nil => rfl
  | cons c cs ih =>
    have hstep : partsFrom (fuel + cs.length + 1) pending ((text (c :: cs)).written ++ rest) =
        partsFrom (fuel + cs.length) (c :: pending) ((text cs).written ++ rest) := by
      rw [ReplacementPart.written, List.flatMap_cons]
      rfl
    rw [List.length_cons, ← Nat.add_assoc, hstep, ih, List.reverse_cons, List.append_assoc]
    rfl

theorem readGroup_digits {n : Nat} (hn : n < UInt64.size) (rest : List Char) :
    readGroup ('\x7b' :: ((toString n).toList ++ '\x7d' :: rest)) = .ok (n, rest) := by
  have hdigits : (toString n).toList = Nat.toDigits 10 n := Nat.toList_repr
  have hrun : (Nat.toDigits 10 n ++ '\x7d' :: rest).takeWhile Char.isDigit =
      Nat.toDigits 10 n := by
    have hall : ∀ c ∈ Nat.toDigits 10 n, c.isDigit = true := by
      intro c hc
      exact Nat.isDigit_of_mem_toDigits (by omega) (by omega) hc
    rw [List.takeWhile_append_of_pos hall, List.takeWhile_cons_of_neg (by decide), List.append_nil]
  rw [hdigits, readGroup, hrun, List.drop_left, groupNumber, Text.decimalBelow?_toDigits hn]
  rfl

theorem readLabel_name {name : List Char} (hne : name ≠ []) (hname : '\x7d' ∉ name)
    (rest : List Char) : readLabel (name ++ '\x7d' :: rest) = .ok (name, rest) := by
  have hrun : (name ++ '\x7d' :: rest).takeWhile (· != '\x7d') = name := by
    have hall : ∀ c ∈ name, (c != '\x7d') = true := by
      intro c hc
      exact bne_iff_ne.mpr fun heq => hname (heq ▸ hc)
    rw [List.takeWhile_append_of_pos hall, List.takeWhile_cons_of_neg (by decide), List.append_nil]
  rw [readLabel, hrun, List.drop_left]
  simp [hne]

/-- A reference ends the text before it, and the rest is read by itself. -/
theorem partsFrom_reference {p : ReplacementPart} (hp : p.IsProper) (htext : p.isText = false)
    (fuel : Nat) (pending rest : List Char) :
    partsFrom (fuel + 1) pending (p.written ++ rest) =
      (partsFrom fuel [] rest).map (literalPart pending ++ p :: ·) := by
  cases p with
  | text cs => exact absurd htext (by simp [isText])
  | group n =>
    have hwritten : (group n).written ++ rest =
        '$' :: '\x7b' :: ((toString n).toList ++ '\x7d' :: rest) := by
      simp [ReplacementPart.written]
    rw [hwritten, partsFrom, if_pos (by rfl), readGroup_digits hp]
    change (partsFrom fuel [] rest).bind (fun parts =>
      .ok (literalPart pending ++ group n :: parts)) = _
    cases partsFrom fuel [] rest <;> rfl
  | label name =>
    have hwritten : (label name).written ++ rest =
        '=' :: '\x7b' :: (name ++ '\x7d' :: rest) := by
      simp [ReplacementPart.written]
    rw [hwritten, partsFrom, readLabel_name hp.1 hp.2]
    change (partsFrom fuel [] rest).bind (fun parts =>
      .ok (literalPart pending ++ label name :: parts)) = _
    cases partsFrom fuel [] rest <;> rfl

/-- Literal characters are no text, or one. -/
theorem literalPart_eq_of_ne_nil (h : pending ≠ []) :
    literalPart pending = [text pending.reverse] := by
  rw [literalPart, if_neg (by simpa using h)]

/-- **What is written is read back**, behind literal characters that are no further text before a
text. -/
theorem partsFrom_written (hproper : ∀ p ∈ parts, p.IsProper)
    (hapart : (literalPart pending ++ parts).IsChain Apart)
    (hfuel : (written parts).length ≤ fuel) :
    partsFrom fuel pending (written parts) = .ok (literalPart pending ++ parts) := by
  induction parts generalizing fuel pending with
  | nil => rw [written, List.flatMap_nil, partsFrom_nil, List.append_nil]
  | cons p parts ih =>
    obtain ⟨hp, hothers⟩ := List.forall_mem_cons.mp hproper
    have htext : written (p :: parts) = p.written ++ written parts := List.flatMap_cons
    rw [htext, List.length_append] at hfuel
    rw [htext]
    by_cases hkind : p.isText = true
    · obtain ⟨cs, rfl⟩ : ∃ cs, p = text cs := by
        cases p with
        | text cs => exact ⟨cs, rfl⟩
        | group | label => exact absurd hkind (by simp [isText])
      -- two texts would stand side by side
      have hnone : pending = [] := by
        by_cases hpending : pending = []
        · exact hpending
        · rw [literalPart_eq_of_ne_nil hpending] at hapart
          exact absurd (hapart.rel_head? rfl rfl) (by simp [isText])
      subst hnone
      have hne : cs.reverse ≠ [] := List.reverse_ne_nil_iff.mpr hp
      have hsame : literalPart (cs.reverse ++ []) = [text cs] := by
        rw [List.append_nil, literalPart_eq_of_ne_nil hne, List.reverse_reverse]
      have hdouble : (text cs).written.length = cs.length + cs.length := by
        rw [ReplacementPart.written, List.length_flatMap]
        simp [Nat.mul_two]
      obtain ⟨fuel, rfl⟩ : ∃ n, fuel = n + cs.length := ⟨fuel - cs.length, by omega⟩
      rw [partsFrom_escaped, ih hothers (hsame ▸ hapart) (by omega), hsame]
      rfl
    · have hlength : 0 < p.written.length := by
        cases p with
        | text cs => exact absurd rfl hkind
        | group | label => exact Nat.succ_pos _
      obtain ⟨fuel, rfl⟩ : ∃ n, fuel = n + 1 := ⟨fuel - 1, by omega⟩
      have hlater : partsFrom fuel [] (written parts) = .ok parts :=
        ih hothers hapart.right_of_append.tail (by omega)
      rw [partsFrom_reference hp (Bool.eq_false_iff.mpr hkind), hlater]
      rfl

/-! ## What is read can be written -/

theorem groupNumber_proper {digits : List Char} {n : Nat} (h : groupNumber digits = .ok n) :
    (group n).IsProper := by
  unfold groupNumber at h
  split at h
  · rename_i hnumber
    obtain rfl := Except.ok.inj h
    exact Text.decimalBelow?_lt hnumber
  · exact absurd h (by simp)

theorem readGroup_proper {cs : List Char} {n : Nat} (h : readGroup cs = .ok (n, rest)) :
    (group n).IsProper := by
  have hnumber : ∀ digits rest', (groupNumber digits).map (·, rest') = .ok (n, rest) →
      (group n).IsProper := by
    intro digits rest' hmap
    obtain ⟨m, hm, heq⟩ := map_eq_ok.mp hmap
    exact groupNumber_proper ((Prod.mk.inj heq).1 ▸ hm)
  unfold readGroup at h
  split at h
  · dsimp only at h
    split at h
    · exact hnumber _ _ h
    · exact absurd h (by simp)
  · exact hnumber _ _ h

theorem readLabel_proper {cs name : List Char} (h : readLabel cs = .ok (name, rest)) :
    (label name).IsProper := by
  unfold readLabel at h
  dsimp only at h
  split at h
  · exact absurd h (by simp)
  · split at h
    · exact absurd h (by simp)
    · rename_i hne
      obtain ⟨rfl, -⟩ := Prod.mk.inj (Except.ok.inj h)
      refine ⟨by simpa using hne, fun hmem => ?_⟩
      exact absurd (List.all_eq_true.mp List.all_takeWhile _ hmem) (by decide)

theorem composed_literalPart (pending : List Char) : Composed (literalPart pending) := by
  by_cases h : pending = []
  · subst h
    exact ⟨fun p hp => absurd hp List.not_mem_nil, .nil⟩
  · rw [literalPart_eq_of_ne_nil h]
    refine ⟨fun p hp => ?_, .singleton _⟩
    obtain rfl := List.mem_singleton.mp hp
    simpa [IsProper] using h

/-- A reference may stand between any text and any parts. -/
theorem Composed.behind {p : ReplacementPart} (h : Composed parts) (hp : p.IsProper)
    (htext : p.isText = false) (pending : List Char) :
    Composed (literalPart pending ++ p :: parts) := by
  have hfront := composed_literalPart pending
  constructor
  · intro q hq
    rcases List.mem_append.mp hq with hq | hq
    · exact hfront.proper q hq
    · rcases List.mem_cons.mp hq with rfl | hq
      · exact hp
      · exact h.proper q hq
  · refine hfront.apart.append (h.apart.cons fun q _ hpq => ?_) fun q _ r hr _ => ?_
    · exact absurd hpq (by simp [htext])
    · obtain rfl := Option.some.inj hr
      exact htext

/-- **What is read is composed of proper parts**, with no text beside another one. -/
theorem composed_of_partsFrom {cs : List Char} (h : partsFrom fuel pending cs = .ok parts) :
    Composed parts := by
  induction fuel, pending, cs using partsFrom.induct generalizing parts with
  | case1 pending cs | case2 fuel pending | case3 fuel pending =>
    obtain rfl := Except.ok.inj h
    exact composed_literalPart pending
  | case4 fuel pending c rest ih => exact ih h
  | case5 fuel pending rest hstart ih =>
    rw [partsFrom, if_pos hstart] at h
    obtain ⟨⟨n, rest⟩, hgroup, h⟩ := bind_eq_ok.mp h
    obtain ⟨later, hlater, h⟩ := bind_eq_ok.mp h
    obtain rfl := Except.ok.inj h
    exact (ih rest hlater).behind (readGroup_proper hgroup) rfl pending
  | case6 fuel pending rest hstart ih =>
    rw [partsFrom, if_neg hstart] at h
    exact ih h
  | case7 fuel pending rest ih =>
    rw [partsFrom] at h
    obtain ⟨⟨name, rest⟩, hlabel, h⟩ := bind_eq_ok.mp h
    obtain ⟨later, hlater, h⟩ := bind_eq_ok.mp h
    obtain rfl := Except.ok.inj h
    exact (ih rest hlater).behind (readLabel_proper hlabel) rfl pending
  | case8 fuel pending c rest _ _ _ _ ih =>
    rw [partsFrom] at h
    · exact ih h
    all_goals assumption

/-- **Replacements that are composed of proper parts are those that are read.** Each of them is
read back from what is written for it, and nothing else is read from any text. -/
theorem composed_iff (parts : List ReplacementPart) :
    (Composed parts ↔ parse (written parts) = .ok parts) ∧
      (Composed parts ↔ ∃ cs, parse cs = .ok parts) := by
  have hback (h : Composed parts) : parse (written parts) = .ok parts :=
    partsFrom_written h.proper h.apart (Nat.le_refl _)
  refine ⟨⟨hback, composed_of_partsFrom⟩, fun h => ⟨_, hback h⟩, ?_⟩
  intro ⟨cs, h⟩
  exact composed_of_partsFrom h

end Replacement

end Constituency
