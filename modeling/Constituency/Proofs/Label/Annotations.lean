import Mathlib.Data.List.Basic
import Constituency.Proofs.Label.Coindex

/-!
# Labels put together from their parts

A label is put together from a basic category, functional tags and an index, each tag and the index
behind a mark. It can be taken apart again if nothing in a part looks like another part: the
category holds no mark behind its first character, a tag holds no mark at all and is no number, and
the index fits a word of 32 bits (`Parts.AreDistinct`). The dash has to be a mark. Otherwise a
category that begins with a dash and a last tag that ends with one would wrap the label.

Category, tags and index are looked for by different rules: up to the first mark, between all marks,
and behind the last. All of them are read off one fact here, that the annotations of the label are
the text that was written behind the category (`annotationChars_append`).
-/

namespace Constituency.Label

/-! ## Annotations behind their marks -/

/-- Texts as they are written one behind the other, each behind its mark. -/
def annotationText (annotations : List (Char × List Char)) : List Char :=
  annotations.flatMap fun a => a.1 :: a.2

/-- An annotation that ends where the next mark stands. -/
structure IsAnnotation (marks : Marks) (a : Char × List Char) : Prop where
  mark : a.1 ∈ marks
  plain : ∀ c ∈ a.2, marks.contains c = false
  nonempty : a.2 ≠ []

section annotations

variable {marks : Marks} {c : Char} {cs : List Char} {annotations : List (Char × List Char)}

theorem contains_eq_false {d : Char} (h : d ∉ marks) : marks.contains d = false :=
  Bool.eq_false_iff.mpr fun hd => h (List.contains_iff_mem.mp hd)

/-- Annotations end with the text of the last of them. -/
theorem annotationText_concat (annotations : List (Char × List Char)) (a : Char × List Char) :
    annotationText (annotations ++ [a]) = annotationText annotations ++ a.1 :: a.2 := by
  rw [annotationText, List.flatMap_append, List.flatMap_singleton]
  rfl

/-- A category with annotations is not wrapped in dashes: where it ends no mark stands. -/
theorem isWrapped_append (hdash : '-' ∈ marks) (hcs : ∀ d ∈ cs, marks.contains d = false)
    (h : ∀ a ∈ annotations, IsAnnotation marks a) :
    isWrapped (c :: (cs ++ annotationText annotations)) = false := by
  have hend : ∀ (front ds : List Char), ds ≠ [] → (∀ d ∈ ds, marks.contains d = false) →
      (front ++ ds).getLast? ≠ some '-' := by
    intro front ds hne hds heq
    rw [List.getLast?_append, List.getLast?_eq_some_getLast hne] at heq
    have hlast : ds.getLast hne = '-' := Option.some.inj heq
    have hplain := hds _ (List.getLast_mem hne)
    rw [hlast, List.contains_iff_mem.mpr hdash] at hplain
    exact absurd hplain (by decide)
  rw [isWrapped, Bool.and_eq_false_iff, beq_eq_false_iff_ne]
  rcases annotations.eq_nil_or_concat' with rfl | ⟨front, a, rfl⟩
  · rw [annotationText, List.flatMap_nil, List.append_nil]
    by_cases hempty : cs = []
    · subst hempty
      left
      simp
    · right
      exact hend [c] cs hempty hcs
  · right
    have ha := h a (List.mem_append_right _ (List.mem_singleton_self a))
    have htext : c :: (cs ++ annotationText (front ++ [a])) =
        (c :: (cs ++ annotationText front) ++ [a.1]) ++ a.2 := by
      simp [annotationText_concat]
    rw [htext]
    exact hend _ a.2 ha.nonempty ha.plain

/-- Where annotations begin a mark stands. -/
theorem contains_of_head? (h : ∀ a ∈ annotations, IsAnnotation marks a) :
    ∀ d ∈ (annotationText annotations).head?, marks.contains d = true := by
  intro d hd
  cases annotations with
  | nil => exact absurd hd (by simp [annotationText])
  | cons a annotations =>
    obtain rfl := Option.some.inj hd
    exact List.contains_iff_mem.mpr (h a (List.mem_cons_self ..)).mark

variable (hdash : '-' ∈ marks) (hcs : ∀ d ∈ cs, marks.contains d = false)
  (h : ∀ a ∈ annotations, IsAnnotation marks a)

include hdash hcs h

/-- **The basic category goes up to the first annotation.** -/
theorem categoryChars_append :
    categoryChars marks (c :: (cs ++ annotationText annotations)) = c :: cs := by
  have hmark := contains_of_head? h
  rw [categoryChars_cons (isWrapped_append hdash hcs h),
    List.takeWhile_append_of_pos fun d hd => by rw [hcs d hd]; rfl]
  cases htext : annotationText annotations with
  | nil => rw [List.takeWhile_nil, List.append_nil]
  | cons d ds =>
    rw [htext] at hmark
    rw [List.takeWhile_cons_of_neg (by rw [hmark d rfl]; decide), List.append_nil]

/-- **What follows the basic category** are the annotations. -/
theorem annotationChars_append :
    annotationChars marks (c :: (cs ++ annotationText annotations)) =
      annotationText annotations := by
  rw [annotationChars, categoryChars_append hdash hcs h, ← List.cons_append, List.drop_left]

/-- **The tags are the texts of the annotations** that are no numbers. -/
theorem tagChars_append :
    tagChars marks (c :: (cs ++ annotationText annotations)) =
      (annotations.map Prod.snd).filter (!Text.isDecimal ·) := by
  have hfields : Text.fields marks.contains (annotationText annotations) =
      [] :: annotations.map Prod.snd :=
    Text.fields_append_flatMap (l := []) (fun _ hd => absurd hd List.not_mem_nil)
      (fun a ha => List.contains_iff_mem.mpr (h a ha).mark) fun a ha => (h a ha).plain
  rw [tagChars, annotationChars_append hdash hcs h, hfields, List.filter_cons_of_neg (by simp)]
  refine List.filter_congr fun text htext => ?_
  obtain ⟨a, ha, rfl⟩ := List.mem_map.mp htext
  simp [(h a ha).nonempty]

/-- **The index is the last annotation**, if that is a number. -/
theorem coindexChars_append :
    coindexChars marks (c :: (cs ++ annotationText annotations)) =
      annotations.getLast?.bind fun a => Text.decimalBelow? UInt32.size a.2 := by
  rw [coindexChars, annotationChars_append hdash hcs h]
  rcases annotations.eq_nil_or_concat' with rfl | ⟨front, a, rfl⟩
  · rfl
  · have ha := h a (List.mem_append_right _ (List.mem_singleton_self a))
    have hmark := List.contains_iff_mem.mpr ha.mark
    -- from the end, the text comes before the first mark, which is its own
    have hlast : ((annotationText (front ++ [a])).reverse.takeWhile
        (!marks.contains ·)).reverse = a.2 := by
      rw [annotationText_concat, List.reverse_append, List.reverse_cons, List.append_assoc,
        List.takeWhile_append_of_pos fun d hd => by
          rw [ha.plain d (List.mem_reverse.mp hd)]
          rfl,
        List.singleton_append, List.takeWhile_cons_of_neg (by simp [ha.mark]), List.append_nil,
        List.reverse_reverse]
    have hany : (annotationText (front ++ [a])).any marks.contains = true := by
      rw [annotationText_concat]
      exact List.any_eq_true.mpr ⟨a.1, by simp, hmark⟩
    rw [hlast, if_pos hany, List.getLast?_append, List.getLast?_singleton]
    rfl

end annotations

/-! ## The parts of a label -/

/-- The parts that a label is put together from; tags and index stand behind marks. -/
structure Parts where
  category : String
  tags : List (Char × String)
  index : Option (Char × Nat)

namespace Parts

/-- The functional tags and the index in the order in which they are written. -/
def annotations (p : Parts) : List (Char × List Char) :=
  (p.tags.map fun t => (t.1, t.2.toList)) ++
    p.index.toList.map fun i => (i.1, (toString i.2).toList)

/-- The label that is put together from parts. -/
def label (p : Parts) : Label :=
  String.ofList (p.category.toList ++ annotationText p.annotations)

/-- Parts none of which looks like several parts or like one of another kind. -/
structure AreDistinct (marks : Marks) (p : Parts) : Prop where
  category_ne : p.category ≠ ""
  category_plain : ∀ c ∈ p.category.toList.tail, c ∉ marks
  tag_mark : ∀ t ∈ p.tags, t.1 ∈ marks
  tag_plain : ∀ t ∈ p.tags, ∀ c ∈ t.2.toList, c ∉ marks
  tag_word : ∀ t ∈ p.tags, ∃ c ∈ t.2.toList, c.isDigit = false
  index_mark : ∀ i ∈ p.index, i.1 ∈ marks
  index_fits : ∀ i ∈ p.index, i.2 < UInt32.size

variable {marks : Marks} {p : Parts}

theorem AreDistinct.isDecimal_tag (hp : p.AreDistinct marks) :
    ∀ t ∈ p.tags, Text.isDecimal t.2.toList = false := by
  intro t ht
  obtain ⟨c, hc, hdigit⟩ := hp.tag_word t ht
  rw [Text.isDecimal, Bool.and_eq_false_iff]
  right
  exact List.all_eq_false.mpr ⟨c, hc, by simp [hdigit]⟩

theorem AreDistinct.isAnnotation (hp : p.AreDistinct marks)
    (hdigit : ∀ c ∈ marks, c.isDigit = false) :
    ∀ a ∈ p.annotations, IsAnnotation marks a := by
  intro a ha
  rcases List.mem_append.mp ha with ha | ha
  · obtain ⟨t, ht, rfl⟩ := List.mem_map.mp ha
    obtain ⟨c, hc, -⟩ := hp.tag_word t ht
    exact ⟨hp.tag_mark t ht, fun d hd => contains_eq_false (hp.tag_plain t ht d hd),
      List.ne_nil_of_mem hc⟩
  · obtain ⟨i, hi, rfl⟩ := List.mem_map.mp ha
    have hdigits : (toString i.2).toList = Nat.toDigits 10 i.2 := Nat.toList_repr
    rw [hdigits]
    exact ⟨hp.index_mark i (Option.mem_toList.mp hi), contains_toDigits hdigit i.2,
      Nat.toDigits_ne_nil⟩

/-- Of the annotations the tags are no numbers, and the index is one. -/
theorem AreDistinct.filter_annotations (hp : p.AreDistinct marks) :
    (p.annotations.map Prod.snd).filter (!Text.isDecimal ·) =
      p.tags.map fun t => t.2.toList := by
  have htags : ((p.tags.map fun t => (t.1, t.2.toList)).map Prod.snd).filter
      (!Text.isDecimal ·) = p.tags.map fun t => t.2.toList := by
    rw [List.map_map]
    refine List.filter_eq_self.mpr fun text htext => ?_
    obtain ⟨t, ht, rfl⟩ := List.mem_map.mp htext
    simp [hp.isDecimal_tag t ht]
  have hindex : ((p.index.toList.map fun i => (i.1, (toString i.2).toList)).map Prod.snd).filter
      (!Text.isDecimal ·) = [] := by
    refine List.filter_eq_nil_iff.mpr fun text htext => ?_
    obtain ⟨a, ha, rfl⟩ := List.mem_map.mp htext
    obtain ⟨i, -, rfl⟩ := List.mem_map.mp ha
    simp [Text.isDecimal_toDigits]
  rw [annotations, List.map_append, List.filter_append, htags, hindex, List.append_nil]

/-- The last annotation is read as the index, and as none if it is a tag. -/
theorem AreDistinct.decimalBelow?_last (hp : p.AreDistinct marks) :
    (p.annotations.getLast?.bind fun a => Text.decimalBelow? UInt32.size a.2) =
      p.index.map Prod.snd := by
  rw [annotations]
  cases hindex : p.index with
  | some i =>
    have hdigits : (toString i.2).toList = Nat.toDigits 10 i.2 := Nat.toList_repr
    have hread := Text.decimalBelow?_toDigits (hp.index_fits i hindex)
    rw [← hdigits] at hread
    rw [Option.toList_some, List.map_singleton, List.getLast?_append, List.getLast?_singleton]
    exact hread
  | none =>
    rw [Option.toList_none, List.map_nil, List.append_nil, Option.map_none,
      Option.bind_eq_none_iff]
    intro a ha
    obtain ⟨t, ht, rfl⟩ := List.mem_map.mp (List.mem_of_getLast? ha)
    rw [Text.decimalBelow?, hp.isDecimal_tag t ht]
    rfl

/-- **A label is taken apart into the parts it was put together from**, whatever characters they
hold: its basic category, its functional tags in order, and its index or none. -/
theorem label_taken_apart (hdash : '-' ∈ marks) (hdigit : ∀ c ∈ marks, c.isDigit = false)
    (hp : p.AreDistinct marks) :
    p.label.category marks = p.category ∧ p.label.tags marks = p.tags.map Prod.snd ∧
      p.label.coindex marks = p.index.map Prod.snd := by
  have hannotations := hp.isAnnotation hdigit
  obtain ⟨c, cs, hchars⟩ := exists_cons hp.category_ne
  have hcs : ∀ d ∈ cs, marks.contains d = false := by
    intro d hd
    refine contains_eq_false (hp.category_plain d ?_)
    rw [hchars]
    exact hd
  have hlabel : p.label.toList = c :: (cs ++ annotationText p.annotations) := by
    rw [label, String.toList_ofList, hchars, List.cons_append]
  refine ⟨?_, ?_, ?_⟩
  · rw [Label.category, hlabel, categoryChars_append hdash hcs hannotations, ← hchars,
      String.ofList_toList]
  · rw [Label.tags, hlabel, tagChars_append hdash hcs hannotations, hp.filter_annotations,
      List.map_map]
    exact List.map_congr_left fun t _ => String.ofList_toList
  · rw [Label.coindex, hlabel, coindexChars_append hdash hcs hannotations, hp.decimalBelow?_last]

/-- A category that is a dash, marks of one and of several bytes, a tag with digits, and the highest
index. -/
theorem label_taken_apart_of_dash :
    let marks : Marks := ['§', '-']
    let p : Parts := ⟨"-", [('-', "TMP"), ('§', "2é")], some ('§', 4294967295)⟩
    '-' ∈ marks ∧ (∀ c ∈ marks, c.isDigit = false) ∧ p.AreDistinct marks ∧
      p.label = "--TMP§2é§4294967295" ∧ p.label.category marks = "-" ∧
      p.label.tags marks = ["TMP", "2é"] ∧ p.label.coindex marks = some 4294967295 := by
  intro marks p
  have hdash : '-' ∈ marks := by decide
  have hdigit : ∀ c ∈ marks, c.isDigit = false := by simp [marks, Char.isDigit]
  have hp : p.AreDistinct marks := by constructor <;> simp [p, marks, Char.isDigit]
  exact ⟨hdash, hdigit, hp, by decide, label_taken_apart hdash hdigit hp⟩

end Parts

end Constituency.Label
