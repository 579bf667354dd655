import Mathlib.Data.List.TakeWhile
import Mathlib.Logic.Function.Iterate
import Constituency.Label
import Constituency.Proofs.Text.Chars

/-!
# Labels with a co-index at their end

A co-index is written behind a dash at the end of a label, and it is looked for behind the last mark
that follows the basic category. Let the dash be a mark and no digit be one. Then the first
character of a label that is not empty keeps the dash out of the basic category, and the digits
behind the dash are the last annotation (`annotationChars_withCoindex`): the index is found again
(`coindex_withCoindex`).

The basic category stays what it was, and so do the functional tags, unless the label is empty or
wrapped in dashes. An empty label has no first character, so that the dash becomes the category's
first. A label that is wrapped in dashes is no longer wrapped when it ends with a digit.
-/

namespace Constituency.Label

/-! ## The characters of a label with an index -/

section chars

variable (l : Label) (n : Nat)

theorem toList_withCoindex :
    (l.withCoindex n).toList = l.toList ++ '-' :: Nat.toDigits 10 n := by
  have hdigits : (toString n).toList = Nat.toDigits 10 n := Nat.toList_repr
  rw [withCoindex, String.toList_append, String.toList_append, hdigits, List.append_assoc]
  rfl

theorem exists_cons {l : Label} (hl : l ≠ "") : ∃ c cs, l.toList = c :: cs :=
  List.exists_cons_of_ne_nil fun hnil => hl (String.toList_eq_nil_iff.mp hnil)

theorem withCoindex_ne_empty : l.withCoindex n ≠ "" := by
  intro hempty
  have hchars := congrArg String.toList hempty
  rw [toList_withCoindex] at hchars
  exact absurd hchars (by simp)

/-- A label that ends with a digit is not wrapped in dashes. -/
theorem isWrapped_withCoindex : isWrapped (l.withCoindex n).toList = false := by
  have hdigits := Text.isDecimal_toDigits n
  rw [Text.isDecimal, Bool.and_eq_true, List.all_eq_true] at hdigits
  have hne : Nat.toDigits 10 n ≠ [] := Nat.toDigits_ne_nil
  have hlast : (l.withCoindex n).toList.getLast? = some ((Nat.toDigits 10 n).getLast hne) := by
    rw [toList_withCoindex, List.getLast?_append, List.getLast?_cons,
      List.getLast?_eq_some_getLast hne]
    rfl
  have hdash : (Nat.toDigits 10 n).getLast hne ≠ '-' := by
    intro heq
    have hdigit := hdigits.2 _ (List.getLast_mem hne)
    rw [heq] at hdigit
    exact absurd hdigit (by decide)
  rw [isWrapped, hlast]
  simp [hdash]

end chars

/-! ## Where the annotations begin -/

section annotations

variable {marks : Marks} {c : Char} {cs ds : List Char}

theorem drop_length_takeWhile (p : Char → Bool) (cs : List Char) :
    cs.drop (cs.takeWhile p).length = cs.dropWhile p := by
  induction cs with
  | nil => rfl
  | cons c cs ih => by_cases hc : p c = true <;> simp [hc, ih]

theorem categoryChars_cons (h : isWrapped (c :: cs) = false) :
    categoryChars marks (c :: cs) = c :: cs.takeWhile (!marks.contains ·) := by
  rw [categoryChars, if_neg (by rw [h]; exact Bool.false_ne_true)]

theorem annotationChars_cons (h : isWrapped (c :: cs) = false) :
    annotationChars marks (c :: cs) = cs.dropWhile (!marks.contains ·) := by
  rw [annotationChars, categoryChars_cons h, List.length_cons, List.drop_succ_cons,
    drop_length_takeWhile]

/-- The usual marks are no digits. -/
theorem isDigit_of_mem_standard (hc : c ∈ Marks.standard) : c.isDigit = false := by
  have hall : Marks.standard.all (!Char.isDigit ·) = true := by decide
  simpa using List.all_eq_true.mp hall c hc

/-- Digits do not separate annotations. -/
theorem contains_toDigits (hdigit : ∀ c ∈ marks, c.isDigit = false) (n : Nat) :
    ∀ c ∈ Nat.toDigits 10 n, marks.contains c = false := by
  intro c hc
  refine Bool.eq_false_iff.mpr fun hmark => ?_
  have hnot := hdigit c (List.contains_iff_mem.mp hmark)
  rw [Nat.isDigit_of_mem_toDigits (by decide) (by decide) hc] at hnot
  exact absurd hnot (by decide)

variable (hdash : '-' ∈ marks)

include hdash

theorem takeWhile_append_dash : (cs ++ '-' :: ds).takeWhile (!marks.contains ·) =
    cs.takeWhile (!marks.contains ·) := by
  have hstop : (!marks.contains '-') = false := by rw [List.contains_iff_mem.mpr hdash]; rfl
  induction cs with
  | nil => rw [List.nil_append, List.takeWhile_cons, hstop]; rfl
  | cons c cs ih =>
    rw [List.cons_append, List.takeWhile_cons, List.takeWhile_cons, ih]

theorem dropWhile_append_dash : (cs ++ '-' :: ds).dropWhile (!marks.contains ·) =
    cs.dropWhile (!marks.contains ·) ++ '-' :: ds := by
  have hstop : (!marks.contains '-') = false := by rw [List.contains_iff_mem.mpr hdash]; rfl
  induction cs with
  | nil => rw [List.nil_append, List.dropWhile_cons, hstop]; rfl
  | cons c cs ih =>
    rw [List.cons_append, List.dropWhile_cons, List.dropWhile_cons, ih]
    split <;> rfl

end annotations

/-! ## Reading a label with an index -/

section reading

variable {marks : Marks} {l : Label} (hdash : '-' ∈ marks)

include hdash

/-- **The annotations of a label with an index** end with the index, behind those that follow the
first character up to the first mark. -/
theorem annotationChars_withCoindex {c : Char} {cs : List Char} (hl : l.toList = c :: cs)
    (n : Nat) :
    annotationChars marks (l.withCoindex n).toList =
      cs.dropWhile (!marks.contains ·) ++ '-' :: Nat.toDigits 10 n := by
  have hchars := toList_withCoindex l n
  have hbare := isWrapped_withCoindex l n
  rw [hl, List.cons_append] at hchars
  rw [hchars] at hbare ⊢
  rw [annotationChars_cons hbare, dropWhile_append_dash hdash]

theorem categoryChars_withCoindex {c : Char} {cs : List Char} (hl : l.toList = c :: cs) (n : Nat) :
    categoryChars marks (l.withCoindex n).toList = c :: cs.takeWhile (!marks.contains ·) := by
  have hchars := toList_withCoindex l n
  have hbare := isWrapped_withCoindex l n
  rw [hl, List.cons_append] at hchars
  rw [hchars] at hbare ⊢
  rw [categoryChars_cons hbare, takeWhile_append_dash hdash]

/-- **The basic category stays** if the label is neither empty nor wrapped in dashes. -/
theorem category_withCoindex (hl : l ≠ "") (hbare : isWrapped l.toList = false) (n : Nat) :
    (l.withCoindex n).category marks = l.category marks := by
  obtain ⟨c, cs, hchars⟩ := exists_cons hl
  rw [category, category, categoryChars_withCoindex hdash hchars]
  rw [hchars] at hbare ⊢
  rw [categoryChars_cons hbare]

variable (hdigit : ∀ c ∈ marks, c.isDigit = false)

include hdigit

/-- **The functional tags stay** if the label is neither empty nor wrapped in dashes: the index is
one more annotation, and a number. -/
theorem tags_withCoindex (hl : l ≠ "") (hbare : isWrapped l.toList = false) (n : Nat) :
    (l.withCoindex n).tags marks = l.tags marks := by
  obtain ⟨c, cs, hchars⟩ := exists_cons hl
  have hfields := Text.fields_append_separator (p := marks.contains)
    (List.contains_iff_mem.mpr hdash) (cs.dropWhile (!marks.contains ·)) (Nat.toDigits 10 n)
  rw [Text.fields_eq_singleton (contains_toDigits hdigit n)] at hfields
  have hindex : ([Nat.toDigits 10 n].filter
      fun tag => !tag.isEmpty && !Text.isDecimal tag) = [] := by
    rw [List.filter_cons_of_neg (by rw [Text.isDecimal_toDigits]; simp), List.filter_nil]
  rw [tags, tags, tagChars, tagChars, annotationChars_withCoindex hdash hchars, hfields,
    List.filter_append, hindex, List.append_nil]
  rw [hchars] at hbare ⊢
  rw [annotationChars_cons hbare]

/-- **The index is found again**, unless the label is empty. -/
theorem coindex_withCoindex (hl : l ≠ "") {n : Nat} (hn : n < UInt32.size) :
    (l.withCoindex n).coindex marks = some n := by
  obtain ⟨c, cs, hchars⟩ := exists_cons hl
  -- from the end, the digits come before the first mark, which is the dash
  have hlast : ((cs.dropWhile (!marks.contains ·) ++ '-' :: Nat.toDigits 10 n).reverse.takeWhile
      (!marks.contains ·)).reverse = Nat.toDigits 10 n := by
    rw [List.reverse_append, List.reverse_cons, List.append_assoc,
      List.takeWhile_append_of_pos fun c hc => by
        rw [contains_toDigits hdigit n c (List.mem_reverse.mp hc)]
        rfl,
      List.singleton_append, List.takeWhile_cons_of_neg (by simp [hdash]), List.append_nil,
      List.reverse_reverse]
  have hany : (cs.dropWhile (!marks.contains ·) ++ '-' :: Nat.toDigits 10 n).any marks.contains =
      true := List.any_eq_true.mpr ⟨'-', by simp, List.contains_iff_mem.mpr hdash⟩
  rw [coindex, coindexChars, annotationChars_withCoindex hdash hchars]
  rw [hlast, if_pos hany, Text.decimalBelow?_toDigits hn]

omit hdash in
/-- Behind an empty label no index is found: all of it is the basic category. -/
theorem coindex_withCoindex_empty (n : Nat) : (withCoindex "" n).coindex marks = none := by
  have hchars := toList_withCoindex "" n
  have hbare := isWrapped_withCoindex "" n
  rw [show ("" : String).toList = [] from rfl, List.nil_append] at hchars
  rw [hchars] at hbare
  have hnone : (Nat.toDigits 10 n).dropWhile (!marks.contains ·) = [] :=
    List.dropWhile_eq_nil_iff.mpr fun c hc => by rw [contains_toDigits hdigit n c hc]; rfl
  rw [coindex, hchars, coindexChars, annotationChars_cons hbare, hnone]
  rfl

/-- No other index is found than the one that was added. -/
theorem eq_of_coindex_withCoindex {n m : Nat} (hn : n < UInt32.size)
    (hm : (l.withCoindex n).coindex marks = some m) : m = n := by
  by_cases hl : l = ""
  · rw [hl, coindex_withCoindex_empty hdigit] at hm
    exact absurd hm (by simp)
  · rw [coindex_withCoindex hdash hdigit hl hn] at hm
    exact (Option.some.inj hm).symm

end reading

/-! ## An index that is added several times -/

section iterate

variable {marks : Marks} {l : Label} {n : Nat} (hdash : '-' ∈ marks)

theorem iterate_withCoindex (n k : Nat) (hl : l ≠ "") : (withCoindex · n)^[k] l ≠ "" := by
  cases k with
  | zero => exact hl
  | succ k =>
    rw [Function.iterate_succ_apply']
    exact withCoindex_ne_empty _ n

theorem isWrapped_iterate (n k : Nat) (hbare : isWrapped l.toList = false) :
    isWrapped ((withCoindex · n)^[k] l).toList = false := by
  cases k with
  | zero => exact hbare
  | succ k =>
    rw [Function.iterate_succ_apply']
    exact isWrapped_withCoindex _ n

include hdash

theorem category_iterate (hl : l ≠ "") (hbare : isWrapped l.toList = false) (n k : Nat) :
    ((withCoindex · n)^[k] l).category marks = l.category marks := by
  induction k with
  | zero => rfl
  | succ k ih =>
    rw [Function.iterate_succ_apply', category_withCoindex hdash (iterate_withCoindex n k hl)
      (isWrapped_iterate n k hbare), ih]

variable (hdigit : ∀ c ∈ marks, c.isDigit = false)

include hdigit

theorem tags_iterate (hl : l ≠ "") (hbare : isWrapped l.toList = false) (n k : Nat) :
    ((withCoindex · n)^[k] l).tags marks = l.tags marks := by
  induction k with
  | zero => rfl
  | succ k ih =>
    rw [Function.iterate_succ_apply', tags_withCoindex hdash hdigit (iterate_withCoindex n k hl)
      (isWrapped_iterate n k hbare), ih]

/-- An index that was added at least once is found, however often. -/
theorem coindex_iterate (hl : l ≠ "") (hn : n < UInt32.size) {k : Nat} (hk : 0 < k) :
    ((withCoindex · n)^[k] l).coindex marks = some n := by
  obtain ⟨k, rfl⟩ := Nat.exists_eq_add_one_of_ne_zero (Nat.ne_of_gt hk)
  rw [Function.iterate_succ_apply',
    coindex_withCoindex hdash hdigit (iterate_withCoindex n k hl) hn]

/-- Whatever the label was, it has no other index afterwards. -/
theorem eq_of_coindex_iterate (hn : n < UInt32.size) {k m : Nat} (hk : 0 < k)
    (hm : ((withCoindex · n)^[k] l).coindex marks = some m) : m = n := by
  obtain ⟨k, rfl⟩ := Nat.exists_eq_add_one_of_ne_zero (Nat.ne_of_gt hk)
  rw [Function.iterate_succ_apply'] at hm
  exact eq_of_coindex_withCoindex hdash hdigit hn hm

end iterate

end Constituency.Label
