import Constituency.Bracket.Iteration
import Constituency.Proofs.Bracket.Order

/-!
# Items that are asked for one by one

What a stream has still to give (`rest`) is read off its state: the trees that are queued, and the
items of the lines that are left. Asking for an item takes the first of them, so the calls give the
items of the stream one after the other and then nothing, however often it is asked
(`next_after`).

On the way whatever is queued is a group and the reader holds a piece of a tree or nothing
(`Sound`); it holds nothing behind any error that comes of the text. The number of open parentheses
is never taken below zero (`Reader.scan?_eq`).
-/

namespace Constituency.Bracket

/-! ## Parentheses are counted above zero -/

namespace Reader

theorem push?_eq (r : Reader) (c : Char) (h : 0 < r.depth ∨ c = '(') :
    r.push? c = some (r.push c) := by
  by_cases hopening : c = '('
  · subst hopening
    rfl
  · by_cases hclosing : c = ')'
    · subst hclosing
      obtain ⟨pending, pendingLine, depth⟩ := r
      -- there is one open parenthesis, or there are more
      obtain ⟨_ | depth, rfl⟩ := Nat.exists_eq_add_one.mpr (h.resolve_right hopening)
      · rfl
      · rfl
    · rw [push?, push, beq_eq_false_iff_ne.mpr hopening, beq_eq_false_iff_ne.mpr hclosing]
      rfl

/-- **No line takes the number of open parentheses below zero**, whatever the reader holds. -/
theorem scan?_eq (line : Nat) (cs : List Char) : ∀ r : Reader,
    r.scan? line cs = some (r.scan line cs) := by
  induction cs with
  | nil => exact fun _ => rfl
  | cons c cs ih =>
    intro r
    rw [scan?, scan]
    split
    · split
      · exact ih r
      · rfl
    · rename_i hinside
      have hcount : 0 < (if r.depth == 0 then { r with pendingLine := line } else r).depth ∨
          c = '(' := by
        by_cases hdepth : r.depth = 0
        · rw [hdepth] at hinside
          exact .inr (by simpa using hinside)
        · exact .inl (by rw [if_neg (by simpa using hdepth)]; omega)
      rw [push?_eq _ c hcount]
      simp only [Option.bind_eq_bind, Option.bind_some, ih]
      rfl

end Reader

/-! ## One item after the other -/

namespace TreeStream

/-- What a stream has still to give. -/
def rest (s : TreeStream) : List Item :=
  s.ready.map readGroup ++ itemsFrom (s.line + 1) s.reader s.lines

theorem advance_eq (ls : List Line) : ∀ (line : Nat) (r : Reader),
    (advance line r ls).1 = (itemsFrom (line + 1) r ls).head? ∧
      (advance line r ls).2.rest = (itemsFrom (line + 1) r ls).tail := by
  induction ls with
  | nil =>
    intro line r
    rw [advance, itemsFrom]
    split
    · rename_i hnone
      refine ⟨rfl, ?_⟩
      rw [rest, itemsFrom, if_pos hnone]
      rfl
    · exact ⟨rfl, rfl⟩
  | cons l ls ih =>
    intro line r
    cases l with
    | none => exact ⟨rfl, rfl⟩
    | some cs =>
      rw [advance, itemsFrom]
      cases herror : (r.scan (line + 1) cs).error with
      | some e => exact ⟨rfl, by rw [rest]; rfl⟩
      | none =>
        cases hgroups : (r.scan (line + 1) cs).groups with
        | nil => exact ih (line + 1) _
        | cons g gs => exact ⟨rfl, by rw [rest]; rfl⟩

theorem next_fst (s : TreeStream) : s.next.1 = s.rest.head? := by
  rw [next, rest]
  cases hready : s.ready with
  | nil => exact (advance_eq _ _ _).1
  | cons g gs => rfl

theorem rest_next (s : TreeStream) : s.next.2.rest = s.rest.tail := by
  obtain ⟨ls, line, r, ready⟩ := s
  cases ready with
  | nil => exact (advance_eq ls line r).2
  | cons g gs => rfl

theorem rest_after (ls : List Line) (k : Nat) : ((start ls).after k).rest = (items ls).drop k := by
  induction k with
  | zero => rfl
  | succ k ih => rw [after, rest_next, ih, List.tail_drop]

/-- **The calls give the items of the stream**, and nothing more behind the last one. -/
theorem next_after (ls : List Line) (k : Nat) : ((start ls).after k).next.1 = (items ls)[k]? := by
  rw [next_fst, rest_after, List.head?_drop]

/-! ## What is kept between two calls -/

/-- The reader of a stream holds a piece of a tree or nothing, and groups are queued. -/
structure Sound (s : TreeStream) : Prop where
  tracks : ∃ piece, Tracks s.reader piece
  ready : ∀ g ∈ s.ready, IsGroup g.2

theorem sound_start (ls : List Line) : (start ls).Sound :=
  ⟨⟨[], tracks_start⟩, fun _ hg => absurd hg List.not_mem_nil⟩

/-- How lines are read up to the next item, when a reader holds a piece. -/
theorem sound_advance (ls : List Line) : ∀ (line : Nat) {r : Reader} {piece : List Symbol},
    Tracks r piece → (advance line r ls).2.Sound ∧
      ∀ e, (advance line r ls).1 = some (.error e) → e.cause ≠ .undecodable →
        (advance line r ls).2.reader.Idle := by
  have hempty : ∀ g ∈ ([] : List (Nat × List Char)), IsGroup g.2 := fun _ hg =>
    absurd hg List.not_mem_nil
  induction ls with
  | nil =>
    intro line r piece h
    rw [advance]
    split
    · exact ⟨⟨⟨piece, h⟩, hempty⟩, fun _ he => nomatch he⟩
    · exact ⟨⟨⟨[], .idle ⟨rfl, rfl⟩⟩, hempty⟩, fun _ _ _ => ⟨rfl, rfl⟩⟩
  | cons l ls ih =>
    intro line r piece h
    cases l with
    | none =>
      refine ⟨⟨⟨piece, h⟩, hempty⟩, fun e he hcause => ?_⟩
      rw [← Except.error.inj (Option.some.inj he)] at hcause
      exact absurd rfl hcause
    | some cs =>
      have hscanned := h.scanned (n := line + 1) cs
      have hgroups := hscanned.isGroup
      obtain ⟨piece', hpiece'⟩ := hscanned.tracks
      rw [advance]
      cases herror : (r.scan (line + 1) cs).error with
      | some e => exact ⟨⟨⟨piece', hpiece'⟩, hgroups⟩, fun _ _ _ => (hscanned.error_eq herror).2⟩
      | none =>
        cases hqueue : (r.scan (line + 1) cs).groups with
        | nil => exact ih (line + 1) hpiece'
        | cons g gs =>
          rw [hqueue] at hgroups
          obtain ⟨hg, hgs⟩ := List.forall_mem_cons.mp hgroups
          obtain ⟨-, t, ht⟩ := readGroup_of_isGroup hg
          refine ⟨⟨⟨piece', hpiece'⟩, hgs⟩, fun e he _ => ?_⟩
          cases ht.symm.trans (Option.some.inj he)

/-- **One more item.** Behind an error other than a line that is not UTF-8 nothing is held. -/
theorem Sound.next {s : TreeStream} (h : s.Sound) : s.next.2.Sound ∧
    ∀ e, s.next.1 = some (.error e) → e.cause ≠ .undecodable → s.next.2.reader.Idle := by
  obtain ⟨piece, hpiece⟩ := h.tracks
  have hready := h.ready
  rw [TreeStream.next]
  cases hqueue : s.ready with
  | nil => exact sound_advance _ _ hpiece
  | cons g gs =>
    rw [hqueue] at hready
    obtain ⟨hg, hgs⟩ := List.forall_mem_cons.mp hready
    obtain ⟨-, t, ht⟩ := readGroup_of_isGroup hg
    refine ⟨⟨⟨piece, hpiece⟩, hgs⟩, fun e he _ => ?_⟩
    cases ht.symm.trans (Option.some.inj he)

theorem sound_after (ls : List Line) (k : Nat) : ((start ls).after k).Sound := by
  induction k with
  | zero => exact sound_start ls
  | succ k ih => exact ih.next.1

end TreeStream

end Constituency.Bracket
