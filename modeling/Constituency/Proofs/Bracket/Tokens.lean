import Constituency.Proofs.Bracket.Reading

/-!
# Which tokens a text has

The tokens of a text are its parentheses and the runs of other characters that are not blank, each
run as long as it can be (`Tokenized`). A text has exactly one such list of tokens, and it is the
one that is read from it (`tokenized_iff`).

Blanks count only as line feeds, for the numbers of the lines. So nothing is read differently if the
carriage returns before line feeds are left out (`parse_unifyBreaks`).
-/

namespace Constituency

namespace Bracket

/-- How a text falls into tokens from a line on. A run of characters that makes an atom is followed
by the end of the text or by a character that cannot belong to it. -/
inductive Tokenized : Nat → List Char → List Located → Prop where
  | done {line : Nat} : Tokenized line [] []
  | blank {line : Nat} {c : Char} {cs : List Char} {ts : List Located} : Text.isBlank c = true →
    Tokenized (if c == '\n' then line + 1 else line) cs ts → Tokenized line (c :: cs) ts
  | opening {line : Nat} {cs : List Char} {ts : List Located} : Tokenized line cs ts →
    Tokenized line ('(' :: cs) (⟨line, .opening⟩ :: ts)
  | closing {line : Nat} {cs : List Char} {ts : List Located} : Tokenized line cs ts →
    Tokenized line (')' :: cs) (⟨line, .closing⟩ :: ts)
  | atom {line : Nat} {a cs : List Char} {ts : List Located} : a ≠ [] →
    (∀ c ∈ a, isDelimiter c = false) → EndsAtom cs → Tokenized line cs ts →
    Tokenized line (a ++ cs) (⟨line, .atom a⟩ :: ts)

/-- A character that begins no atom begins a token, or none if it is blank. -/
theorem tokensFrom_delimiter (line : Nat) {c : Char} (hc : isDelimiter c = true) (cs : List Char) :
    tokensFrom line [] (c :: cs) =
      let rest := tokensFrom (if c == '\n' then line + 1 else line) [] cs
      if c == '(' then ⟨line, .opening⟩ :: rest
      else if c == ')' then ⟨line, .closing⟩ :: rest
      else rest := by
  rw [tokensFrom, if_pos hc]
  rfl

theorem eq_tokensFrom_of_tokenized {line : Nat} {cs : List Char} {ts : List Located}
    (h : Tokenized line cs ts) : tokensFrom line [] cs = ts := by
  induction h with
  | done => rfl
  | @blank line c cs ts hc _ ih =>
    have hdelimiter : isDelimiter c = true := by rw [isDelimiter, hc, Bool.or_true]
    have hopen : (c == '(') = false := beq_eq_false_iff_ne.mpr fun heq =>
      absurd hc (by rw [heq]; decide)
    have hclose : (c == ')') = false := beq_eq_false_iff_ne.mpr fun heq =>
      absurd hc (by rw [heq]; decide)
    rw [tokensFrom_delimiter line hdelimiter, hopen, hclose]
    exact ih
  | opening _ ih => exact congrArg _ ih
  | closing _ ih => exact congrArg _ ih
  | @atom line a cs ts hne hatom hend _ ih =>
    have hpending : pendingAtom line a.reverse = [⟨line, .atom a⟩] := by
      rw [pendingAtom, List.isEmpty_reverse, if_neg (by simpa using hne), List.reverse_reverse]
    rw [tokensFrom_append line a [] cs hatom, List.append_nil, tokensFrom_of_endsAtom _ _ hend,
      hpending, ih]
    rfl

/-- The tokens that are read behind the characters of an atom that has begun. -/
theorem tokenized_tokensFrom : ∀ (cs : List Char) (line : Nat) (pending : List Char),
    (∀ c ∈ pending, isDelimiter c = false) →
      Tokenized line (pending.reverse ++ cs) (tokensFrom line pending cs) := by
  -- an atom that ends here is a token in front of the others
  have hends : ∀ {line : Nat} {pending cs : List Char} {ts : List Located},
      (∀ c ∈ pending, isDelimiter c = false) → EndsAtom cs → Tokenized line cs ts →
        Tokenized line (pending.reverse ++ cs) (pendingAtom line pending ++ ts) := by
    intro line pending cs ts hpending hcs hts
    rw [pendingAtom]
    by_cases hempty : pending = []
    · rw [hempty]
      exact hts
    · rw [if_neg (by simpa using hempty)]
      exact .atom (by simpa using hempty) (fun c hc => hpending c (List.mem_reverse.mp hc)) hcs hts
  intro cs
  induction cs with
  | nil =>
    intro line pending hpending
    have hlast : Tokenized line (pending.reverse ++ []) (pendingAtom line pending ++ []) :=
      hends hpending (fun _ hc => absurd hc (by simp)) .done
    rwa [List.append_nil (pendingAtom line pending)] at hlast
  | cons c cs ih =>
    intro line pending hpending
    by_cases hc : isDelimiter c = true
    · have hrest := ih (if c == '\n' then line + 1 else line) [] fun _ hx => absurd hx (by simp)
      rw [tokensFrom_of_endsAtom _ _ (endsAtom_cons hc), tokensFrom_delimiter line hc]
      refine hends hpending (endsAtom_cons hc) ?_
      by_cases hopen : c = '('
      · subst hopen
        exact .opening hrest
      · by_cases hclose : c = ')'
        · subst hclose
          exact .closing hrest
        · rw [if_neg (by simpa using hopen), if_neg (by simpa using hclose)]
          refine .blank ?_ hrest
          simpa [isDelimiter, hopen, hclose] using hc
    · have hrest := ih line (c :: pending) fun x hx =>
        (List.mem_cons.mp hx).elim (fun heq => heq ▸ by simpa using hc) (hpending x)
      rw [tokensFrom, if_neg hc]
      rwa [List.reverse_cons, List.append_assoc] at hrest

/-- **A text has one list of tokens**, which is the one that is read. -/
theorem tokenized_iff {line : Nat} {cs : List Char} {ts : List Located} :
    Tokenized line cs ts ↔ tokensFrom line [] cs = ts := by
  constructor
  · exact eq_tokensFrom_of_tokenized
  · rintro rfl
    exact tokenized_tokensFrom cs line [] fun _ hc => absurd hc (by simp)

/-- No atom is empty. -/
theorem Tokenized.atom_ne_nil {line : Nat} {cs : List Char} {ts : List Located}
    (h : Tokenized line cs ts) : ∀ t ∈ ts, ∀ a, t.token = .atom a → a ≠ [] := by
  induction h with
  | done => exact fun _ ht => absurd ht (by simp)
  | blank _ _ ih => exact ih
  | opening _ ih => exact List.forall_mem_cons.mpr ⟨fun a ha => absurd ha (by simp), ih⟩
  | closing _ ih => exact List.forall_mem_cons.mpr ⟨fun a ha => absurd ha (by simp), ih⟩
  | atom hne _ _ _ ih =>
    exact List.forall_mem_cons.mpr ⟨fun b hb => Token.atom.inj hb ▸ hne, ih⟩

end Bracket

/-! ## Line breaks -/

/-- The text with a line feed in the place of each carriage return and line feed. -/
def Text.unifyBreaks : List Char → List Char
  | [] => []
  | c :: cs => if c == '\r' && cs.head? == some '\n' then unifyBreaks cs else c :: unifyBreaks cs

namespace Bracket

/-- Nothing is read differently if line breaks are unified. -/
theorem tokensFrom_unifyBreaks (line : Nat) (pending cs : List Char) :
    tokensFrom line pending (Text.unifyBreaks cs) = tokensFrom line pending cs := by
  induction cs generalizing line pending with
  | nil => rfl
  | cons c cs ih =>
    rw [Text.unifyBreaks]
    split
    · rename_i hbreak
      rw [Bool.and_eq_true, beq_iff_eq, beq_iff_eq] at hbreak
      obtain ⟨rfl, hnext⟩ := hbreak
      have hends : EndsAtom cs := fun d hd => by
        obtain rfl := Option.some.inj (hnext.symm.trans hd)
        decide
      rw [ih, tokensFrom_of_endsAtom _ _ hends]
      rfl
    · rw [tokensFrom, tokensFrom]
      simp only [ih]

theorem count_unifyBreaks (cs : List Char) : (Text.unifyBreaks cs).count '\n' = cs.count '\n' := by
  induction cs with
  | nil => rfl
  | cons c cs ih =>
    rw [Text.unifyBreaks]
    split
    · rename_i hbreak
      rw [Bool.and_eq_true, beq_iff_eq] at hbreak
      rw [ih, hbreak.1]
      rfl
    · rw [List.count_cons, List.count_cons, ih]

/-- **A text is read in the same way whichever line breaks it has.** -/
theorem parse_unifyBreaks (cs : List Char) : parse (Text.unifyBreaks cs) = parse cs := by
  rw [parse, parse, tokens, tokens, tokensFrom_unifyBreaks, lastLine, lastLine, count_unifyBreaks]

end Bracket

end Constituency
