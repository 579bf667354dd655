import Constituency.Proofs.Bracket.Iteration

/-!
# The pieces that trees are read from

Every tree of a stream is read from one piece of it, and the pieces stand in the stream one behind
the other. An error is reported on a line that no piece contains, with one exception: a line that is
not UTF-8 is reported and passed over, and a tree that has begun goes on behind it. So a piece
contains a line that is reported exactly if it contains a line that is not UTF-8
(`Divided.reported_iff`).
-/

namespace Constituency.Bracket

/-! ## The lines of errors -/

section

variable {p : Part} {rest piece : List Symbol} {e : ParseError}

/-- An error is reported on a line of its part. -/
theorem Part.Fits.exists_line (h : p.Fits rest) (he : e ∈ p.errors) :
    ∃ s ∈ p.symbols, e.line = s.line := by
  have hundecoded : ∀ {piece : List Symbol}, e ∈ undecoded piece → ∃ s ∈ piece, e.line = s.line :=
    fun he => by
      obtain ⟨s, hs, -, rfl⟩ := mem_undecoded.mp he
      exact ⟨s, hs, rfl⟩
  cases h with
  | between | tree => exact hundecoded he
  | stray =>
    rw [List.mem_singleton.mp he]
    exact ⟨_, List.mem_cons_self, rfl⟩
  | @unclosed piece hunclosed =>
    rcases List.mem_append.mp he with he | he
    · exact hundecoded he
    · rw [List.mem_singleton.mp he]
      cases piece with
      | nil => cases hunclosed.first
      | cons s piece => exact ⟨s, List.mem_cons_self, rfl⟩

/-- What comes behind an error does not stand on its line. -/
theorem Part.Fits.line_lt (h : p.Fits rest) (horder : (p.symbols ++ rest).Pairwise Symbol.Precedes)
    (he : e ∈ p.errors) : ∀ x ∈ rest, e.line < x.line := by
  intro x hx
  have hprecedes : ∀ s ∈ p.symbols, s.Precedes x := fun s hs =>
    (List.pairwise_append.mp horder).2.2 s hs x hx
  have hundecoded : e ∈ undecoded p.symbols → e.line < x.line := fun he => by
    obtain ⟨s, hs, hnone, rfl⟩ := mem_undecoded.mp he
    exact (hprecedes s hs).2 (.inl hnone)
  cases h with
  | between | tree => exact hundecoded he
  | stray _ _ _ hlines =>
    rw [List.mem_singleton.mp he]
    exact Nat.lt_of_le_of_ne (hprecedes _ List.mem_cons_self).1 (Ne.symm (hlines x hx))
  | unclosed => cases hx

theorem IsTree.exists_first (h : IsTree piece) : ∃ s ∈ piece, firstLine piece = s.line := by
  cases piece with
  | nil => cases h.first
  | cons s piece => exact ⟨s, List.mem_cons_self, rfl⟩

theorem IsTree.exists_last (h : IsTree piece) : ∃ s ∈ piece, finalLine piece = s.line := by
  obtain ⟨s, hs, -⟩ := Option.bind_eq_some_iff.mp h.last
  exact ⟨s, List.mem_of_getLast? hs, by rw [finalLine, hs]; rfl⟩

/-- A line that is not UTF-8 is not the first one of a tree and not the last. -/
theorem IsTree.line_of_undecoded (h : IsTree piece) (horder : piece.Pairwise Symbol.Precedes)
    (he : e ∈ undecoded piece) : firstLine piece < e.line ∧ e.line < finalLine piece := by
  obtain ⟨s, hs, hnone, rfl⟩ := mem_undecoded.mp he
  constructor
  · cases piece with
    | nil => cases hs
    | cons a piece =>
      rcases List.mem_cons.mp hs with rfl | hs
      · cases hnone.symm.trans h.first
      · exact ((List.pairwise_cons.mp horder).1 s hs).2 (.inr hnone)
  · rcases List.eq_nil_or_concat piece with rfl | ⟨front, b, hpiece⟩
    · cases hs
    · rw [List.concat_eq_append] at hpiece
      subst hpiece
      have hlast := h.last
      rw [List.getLast?_concat] at hlast
      rw [finalLine, List.getLast?_concat]
      rcases List.mem_append.mp hs with hs | hs
      · exact ((List.pairwise_append.mp horder).2.2 s hs b (List.mem_singleton.mpr rfl)).2
          (.inl hnone)
      · rw [List.mem_singleton.mp hs] at hnone
        cases hnone.symm.trans hlast

end

/-! ## What a piece contains -/

/-- The lines whose ends a piece contains. -/
def Contains (piece : List Symbol) (line : Nat) : Prop :=
  firstLine piece ≤ line ∧ line < finalLine piece

/-- **A piece contains a line that is reported exactly if it contains one that is not UTF-8.** -/
theorem Divided.reported_iff {ls : List Line} {ps : List Part}
    (h : Divided (symbolsFrom 1 ls) ps) {piece : List Symbol} (hpiece : .tree piece ∈ ps) :
    (∃ e, .error e ∈ items ls ∧ Contains piece e.line) ↔ ∃ s ∈ piece, s.char = none := by
  have htree := h.isTree hpiece
  obtain ⟨before, behind, rfl⟩ := List.append_of_mem hpiece
  obtain ⟨hown, -, hacross⟩ := List.pairwise_append.mp h.pairwise_front
  constructor
  · rintro ⟨e, he, hfirst, hfinal⟩
    obtain ⟨q, hq, heq⟩ := h.error_mem_items.mp he
    rcases List.mem_append.mp hq with hbefore | hbehind
    · -- a part in front of the piece: its error is on an earlier line
      obtain ⟨a, b, rfl⟩ := List.append_of_mem hbefore
      rw [List.append_assoc, List.cons_append] at h
      obtain ⟨x, hx, hline⟩ := htree.exists_first
      have hlt := h.fits_front.line_lt h.pairwise_front heq x
        (List.mem_flatMap.mpr ⟨_, List.mem_append_right b List.mem_cons_self, hx⟩)
      omega
    · rcases List.mem_cons.mp hbehind with rfl | hbehind
      · obtain ⟨s, hs, hnone, -⟩ := mem_undecoded.mp heq
        exact ⟨s, hs, hnone⟩
      · -- a part behind the piece: it begins where the piece has ended
        obtain ⟨x, hx, hline⟩ := htree.exists_last
        obtain ⟨s, hs, heline⟩ := (h.fits q hq).choose_spec.exists_line heq
        have hle := (hacross x hx s (List.mem_flatMap.mpr ⟨q, hbehind, hs⟩)).1
        omega
  · rintro ⟨s, hs, hnone⟩
    have he : (⟨s.line, .undecodable⟩ : ParseError) ∈ undecoded piece :=
      mem_undecoded.mpr ⟨s, hs, hnone, rfl⟩
    obtain ⟨hfirst, hfinal⟩ := htree.line_of_undecoded hown he
    exact ⟨_, h.error_mem_items.mpr ⟨_, hpiece, he⟩, Nat.le_of_lt hfirst, hfinal⟩

/-- **Trees and the lines that are reported.** A stream falls into parts in exactly one way, and the
trees that are read are those of the parts, each from the text of one contiguous piece. A piece
contains no line that is reported exactly if all its lines are UTF-8: behind any other error nothing
is left of a tree that had begun. -/
theorem trees_are_read_from_pieces (ls : List Line) : ∃ ps : List Part,
    (∀ qs, Divided (symbolsFrom 1 ls) qs ↔ qs = ps) ∧
      (items ls).filter Except.isOk = ps.filterMap Part.tree? ∧
      (∀ piece, .tree piece ∈ ps →
        ((∀ e, .error e ∈ items ls → ¬ Contains piece e.line) ↔ ∀ s ∈ piece, s.char ≠ none)) ∧
      ∀ k e, ((TreeStream.start ls).after k).next.1 = some (.error e) → e.cause ≠ .undecodable →
        ((TreeStream.start ls).after k).next.2.reader.Idle := by
  obtain ⟨ps, hps⟩ := exists_division ls
  refine ⟨ps, hps.iff_eq, hps.filter_isOk, fun piece hpiece => ?_, fun k =>
    (TreeStream.sound_after ls k).next.2⟩
  have hreported := not_congr (hps.reported_iff hpiece)
  push Not at hreported
  exact hreported

/-- The two halves of a tree are joined across a line that is not UTF-8 and has been reported. -/
theorem tree_spans_reported_line : ∃ ps piece,
    Divided (symbolsFrom 1 (linesOfBytes [40, 65, 10, 255, 10, 98, 41, 10])) ps ∧
      .tree piece ∈ ps ∧
      parseTree (String.ofList (textOf piece)) = parseTree "(A\nb)" ∧
      itemsOfBytes [40, 65, 10, 255, 10, 98, 41, 10] =
        [.error ⟨2, .undecodable⟩, parseTree "(A\nb)"] ∧
      Contains piece 2 := by
  let piece : List Symbol := [⟨1, some '('⟩, ⟨1, some 'A'⟩, ⟨1, some '\n'⟩, ⟨2, none⟩,
    ⟨3, some 'b'⟩, ⟨3, some ')'⟩]
  have htree : IsTree piece := ⟨by decide, rfl, rfl⟩
  have hend : (Part.between ⟨3, some '\n'⟩).Fits [] :=
    .between fun c hc => by rw [← Option.some.inj hc]; rfl
  refine ⟨[.tree piece, .between ⟨3, some '\n'⟩], piece, ?_, List.mem_cons_self, rfl, rfl, ?_⟩
  · exact .cons (.tree htree) (.cons hend .nil)
  · exact ⟨by decide, by decide⟩

end Constituency.Bracket
