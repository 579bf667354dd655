import Constituency.Text.Chars

/-!
# Fields, decimals, lines and blanks

A text falls into fields at its separators, and a text without separators is one field. Decimal
digits are read as the number that they were written for. The fields between line feeds make the
text again. A text that is not all blank is not empty without the blanks at its ends.
-/

namespace Constituency.Text

section fields

variable {α : Type} {p : α → Bool} {l : List α}

theorem fields_ne_nil (l : List α) : fields p l ≠ [] := by
  cases l with
  | nil => exact List.cons_ne_nil _ _
  | cons x l =>
    rw [fields]
    split
    · exact List.cons_ne_nil _ _
    · split <;> exact List.cons_ne_nil _ _

theorem fields_eq_singleton (hl : ∀ x ∈ l, p x = false) : fields p l = [l] := by
  induction l with
  | nil => rfl
  | cons x l ih =>
    have hx : ¬ p x = true := by rw [hl x (List.mem_cons_self ..)]; exact Bool.false_ne_true
    rw [fields, if_neg hx, ih fun y hy => hl y (List.mem_cons_of_mem x hy)]

/-- What is in a field is in the text, and is no separator. -/
theorem mem_of_mem_fields {f : List α} (hf : f ∈ fields p l) {x : α} (hx : x ∈ f) :
    x ∈ l ∧ p x = false := by
  induction l generalizing f with
  | nil =>
    obtain rfl := List.mem_singleton.mp hf
    exact absurd hx List.not_mem_nil
  | cons y l ih =>
    have hlater : ∀ g ∈ fields p l, x ∈ g → x ∈ y :: l ∧ p x = false := by
      intro g hg hxg
      exact ⟨List.mem_cons_of_mem y (ih hg hxg).1, (ih hg hxg).2⟩
    obtain ⟨g, gs, hfields⟩ := List.exists_cons_of_ne_nil (fields_ne_nil (p := p) l)
    rw [fields] at hf
    by_cases hy : p y = true
    · rw [if_pos hy] at hf
      rcases List.mem_cons.mp hf with rfl | hf
      · exact absurd hx List.not_mem_nil
      · exact hlater f hf hx
    · -- the first field has one element more
      rw [if_neg hy, hfields] at hf
      rw [hfields] at hlater
      rcases List.mem_cons.mp hf with rfl | hf
      · rcases List.mem_cons.mp hx with rfl | hx
        · exact ⟨List.mem_cons_self .., Bool.eq_false_iff.mpr hy⟩
        · exact hlater g (List.mem_cons_self ..) hx
      · exact hlater f (List.mem_cons_of_mem g hf) hx

/-- **The fields before a separator and those behind it** are the fields of the whole. -/
theorem fields_append_separator {c : α} (hc : p c = true) (before after : List α) :
    fields p (before ++ c :: after) = fields p before ++ fields p after := by
  induction before with
  | nil =>
    show fields p (c :: after) = [] :: fields p after
    rw [fields, if_pos hc]
  | cons x before ih =>
    rw [List.cons_append, fields, fields, ih]
    by_cases hx : p x = true
    · rw [if_pos hx, if_pos hx, List.cons_append]
    · -- the first field grows by one character
      obtain ⟨f, fs, hfields⟩ := List.exists_cons_of_ne_nil (fields_ne_nil (p := p) before)
      rw [if_neg hx, if_neg hx, hfields]
      rfl

theorem fields_append_cons (hl : ∀ x ∈ l, p x = false) {c : α} (hc : p c = true) (cs : List α) :
    fields p (l ++ c :: cs) = l :: fields p cs := by
  rw [fields_append_separator hc, fields_eq_singleton hl, List.singleton_append]

/-- Pieces written each behind a separator of its own are the fields behind the first. -/
theorem fields_append_flatMap {pieces : List (α × List α)} (hl : ∀ x ∈ l, p x = false)
    (hseparator : ∀ a ∈ pieces, p a.1 = true) (hplain : ∀ a ∈ pieces, ∀ x ∈ a.2, p x = false) :
    fields p (l ++ pieces.flatMap fun a => a.1 :: a.2) = l :: pieces.map Prod.snd := by
  induction pieces generalizing l with
  | nil =>
    rw [List.flatMap_nil, List.append_nil]
    exact fields_eq_singleton hl
  | cons a pieces ih =>
    obtain ⟨ha, hseparator⟩ := List.forall_mem_cons.mp hseparator
    obtain ⟨htext, hplain⟩ := List.forall_mem_cons.mp hplain
    rw [List.flatMap_cons, List.cons_append, fields_append_cons hl ha, ih htext hseparator hplain]
    rfl

end fields

/-! ## Decimals -/

theorem isDecimal_toDigits (m : Nat) : isDecimal (Nat.toDigits 10 m) = true := by
  rw [isDecimal, Bool.and_eq_true]
  refine ⟨by simp [Nat.toDigits_ne_nil], List.all_eq_true.mpr fun c hc => ?_⟩
  exact Nat.isDigit_of_mem_toDigits (by decide) (by decide) hc

theorem decimalValue_toDigits (m : Nat) : decimalValue (Nat.toDigits 10 m) = m := by
  rw [decimalValue, ← Nat.ofDigitChars_eq_foldl]
  exact Nat.ofDigitChars_ten_toDigits

/-- The digits of a number below a limit are read as that number. -/
theorem decimalBelow?_toDigits {limit m : Nat} (h : m < limit) :
    decimalBelow? limit (Nat.toDigits 10 m) = some m := by
  rw [decimalBelow?, isDecimal_toDigits, decimalValue_toDigits, Bool.true_and,
    if_pos (decide_eq_true h)]

theorem decimalBelow?_lt {limit m : Nat} {cs : List Char} (h : decimalBelow? limit cs = some m) :
    m < limit := by
  obtain ⟨hbelow, hvalue⟩ := Option.ite_none_right_eq_some.mp h
  rw [← Option.some.inj hvalue]
  exact of_decide_eq_true (Bool.and_eq_true_iff.mp hbelow).2

/-! ## Texts put together of lines -/

/-- What is put together with line feeds falls apart at them. -/
theorem fields_intercalate (l : List Char) (ls : List (List Char))
    (hls : ∀ k ∈ l :: ls, ∀ c ∈ k, (c == '\n') = false) :
    fields (· == '\n') (['\n'].intercalate (l :: ls)) = l :: ls := by
  induction ls generalizing l with
  | nil =>
    rw [List.intercalate_singleton]
    exact fields_eq_singleton (hls l (List.mem_singleton_self l))
  | cons k ls ih =>
    rw [List.intercalate_cons_cons, List.append_assoc, List.singleton_append,
      fields_append_cons (hls l (List.mem_cons_self ..)) rfl,
      ih k fun j hj => hls j (List.mem_cons_of_mem l hj)]

/-- A line feed behind the last line begins an empty one. -/
theorem intercalate_concat (l : List Char) (ls : List (List Char)) :
    ['\n'].intercalate (l :: ls) ++ ['\n'] = ['\n'].intercalate (l :: ls ++ [[]]) := by
  induction ls generalizing l with
  | nil =>
    rw [List.cons_append, List.nil_append, List.intercalate_cons_cons, List.intercalate_singleton,
      List.intercalate_singleton, List.append_nil]
  | cons k ls ih =>
    rw [List.intercalate_cons_cons, List.append_assoc, ih k, List.cons_append, List.cons_append,
      List.cons_append, List.intercalate_cons_cons]

/-- The pieces of a text between its line feeds make the text. -/
theorem intercalate_fields (cs : List Char) : ['\n'].intercalate (fields (· == '\n') cs) = cs := by
  induction cs with
  | nil => rfl
  | cons c cs ih =>
    obtain ⟨f, fs, hfields⟩ := List.exists_cons_of_ne_nil (fields_ne_nil (p := (· == '\n')) cs)
    rw [hfields] at ih
    rw [fields]
    by_cases hc : (c == '\n') = true
    · rw [if_pos hc, hfields, List.intercalate_cons_cons, ih, eq_of_beq hc]
      rfl
    · rw [if_neg hc, hfields, ← ih]
      cases fs <;> rfl

theorem map_dropReturn {ls : List (List Char)} (h : ∀ l ∈ ls, l.getLast? ≠ some '\r') :
    ls.map dropReturn = ls :=
  (List.map_congr_left fun l hl => if_neg (h l hl)).trans (List.map_id ls)

/-- The lines of a text are its pieces between line feeds, the last of them if it is not empty. -/
theorem lines_eq {cs last : List Char} {ended : List (List Char)}
    (h : fields (· == '\n') cs = ended ++ [last]) :
    lines cs = ended.map dropReturn ++ if last.isEmpty then [] else [last] := by
  rw [lines, h, List.reverse_append, List.reverse_singleton, List.singleton_append]
  dsimp only
  rw [List.map_reverse, List.reverse_reverse]

/-- A text without carriage returns that is not empty and does not end with a line feed falls into
lines as it falls into pieces. -/
theorem lines_eq_fields {cs : List Char} (hne : cs ≠ []) (hreturn : '\r' ∉ cs)
    (hend : cs.getLast? ≠ some '\n') : lines cs = fields (· == '\n') cs := by
  obtain ⟨ended, last, hfields⟩ : ∃ ended last, fields (· == '\n') cs = ended ++ [last] :=
    ⟨_, _, (List.dropLast_concat_getLast (fields_ne_nil cs)).symm⟩
  have hcs : ['\n'].intercalate (ended ++ [last]) = cs := hfields ▸ intercalate_fields cs
  have hlast : last ≠ [] := by
    intro hnil
    subst hnil
    cases ended with
    | nil => exact hne hcs.symm
    | cons l ended =>
      rw [← intercalate_concat] at hcs
      exact hend (hcs ▸ List.getLast?_concat)
  have hended : ended.map dropReturn = ended := by
    refine map_dropReturn fun l hl hlast => hreturn ?_
    have hl : l ∈ fields (· == '\n') cs := hfields ▸ List.mem_append_left [last] hl
    exact (mem_of_mem_fields hl (List.mem_of_getLast? hlast)).1
  rw [lines_eq hfields, hended, if_neg (by simpa using hlast), hfields]

/-! ## Blanks -/

/-- A blank at the end of a text is not among what is left of it. -/
theorem trim_concat {c : Char} (hc : isBlank c = true) (cs : List Char) :
    trim (cs ++ [c]) = trim cs := by
  rw [trim, trim, List.dropWhile_append]
  split
  · rename_i hempty
    rw [List.isEmpty_iff.mp hempty, List.dropWhile_cons_of_pos hc]
    rfl
  · rw [List.reverse_append, List.reverse_singleton, List.singleton_append,
      List.dropWhile_cons_of_pos hc]

theorem trim_dropReturn (cs : List Char) : trim (dropReturn cs) = trim cs := by
  rw [dropReturn]
  split
  · rename_i hreturn
    obtain ⟨cs, rfl⟩ := List.getLast?_eq_some_iff.mp hreturn
    rw [List.dropLast_concat, trim_concat (by decide)]
  · rfl

/-- Something is left of a text without the blanks at its ends if it is not all blank. -/
theorem isEmpty_trim_of_mem {c : Char} {cs : List Char} (hc : c ∈ cs)
    (hblank : isBlank c = false) : (trim cs).isEmpty = false := by
  have hdrop : ∀ xs : List Char, c ∈ xs → c ∈ xs.dropWhile isBlank := by
    intro xs hxs
    rw [← List.takeWhile_append_dropWhile (p := isBlank) (l := xs)] at hxs
    rcases List.mem_append.mp hxs with hxs | hxs
    · exact absurd (List.all_eq_true.mp List.all_takeWhile c hxs) (by simp [hblank])
    · exact hxs
  have hmem : c ∈ trim cs := List.mem_reverse.mpr (hdrop _ (List.mem_reverse.mpr (hdrop _ hc)))
  cases htrim : trim cs with
  | nil => exact absurd (htrim ▸ hmem) List.not_mem_nil
  | cons => rfl

end Constituency.Text
