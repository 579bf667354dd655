import Constituency.Proofs.Bracket.Iteration

/-!
# Texts of groups

A text of groups with blanks between and around them (`Spaced`) is read as these groups, one item
for each, whatever the lines it is laid out on; only a carriage return in front of a line feed does
not get into a group, which makes no difference to its tree. Of any stream at all, what is queued is
a group and is accepted as a tree, so that an error can only come from a part of the stream that is
no tree, or from a line that is not UTF-8.
-/

namespace Constituency

/-! ## Lines and line breaks -/

namespace Text

theorem unifyBreaks_cons_of_ne {c : Char} (hc : c ≠ '\r') (cs : List Char) :
    unifyBreaks (c :: cs) = c :: unifyBreaks cs := by
  rw [unifyBreaks, beq_eq_false_iff_ne.mpr hc, Bool.false_and, if_neg Bool.false_ne_true]

/-- Line breaks are unified on both sides of a place that is not inside of one. -/
theorem unifyBreaks_append {a b : List Char} (h : a.getLast? = some '\r' → b.head? ≠ some '\n') :
    unifyBreaks (a ++ b) = unifyBreaks a ++ unifyBreaks b := by
  induction a with
  | nil => rfl
  | cons c a ih =>
    cases a with
    | nil =>
      by_cases hc : c = '\r'
      · subst hc
        have hb := h rfl
        rw [List.singleton_append, unifyBreaks, if_neg (by simpa using hb)]
        rfl
      · rw [List.singleton_append, unifyBreaks_cons_of_ne hc, unifyBreaks_cons_of_ne hc]
        rfl
    | cons d a =>
      have hrest := ih fun hlast => h (by rwa [List.getLast?_cons_cons])
      have hnext : (d :: a ++ b).head? = (d :: a).head? := rfl
      rw [List.cons_append, unifyBreaks, unifyBreaks, hrest, hnext]
      by_cases hbreak : (c == '\r' && (d :: a).head? == some '\n') = true
      · rw [if_pos hbreak, if_pos hbreak]
      · rw [if_neg hbreak, if_neg hbreak, List.cons_append]

theorem unifyBreaks_of_not_mem {cs : List Char} (h : '\n' ∉ cs) : unifyBreaks cs = cs := by
  induction cs with
  | nil => rfl
  | cons c cs ih =>
    rw [List.mem_cons, not_or] at h
    have hnext : cs.head? ≠ some '\n' := fun hhead => h.2 (List.mem_of_mem_head? hhead)
    rw [unifyBreaks, if_neg (by simp [hnext]), ih h.2]

/-- The first line break of a text, with a carriage return or without. -/
theorem unifyBreaks_line {l : List Char} (h : '\n' ∉ l) (cs : List Char) :
    unifyBreaks (l ++ '\n' :: cs) = dropReturn l ++ '\n' :: unifyBreaks cs := by
  have hbreak : unifyBreaks ('\n' :: cs) = '\n' :: unifyBreaks cs :=
    unifyBreaks_cons_of_ne (by decide) cs
  rw [dropReturn]
  split
  · rename_i hreturn
    obtain ⟨l, rfl⟩ := List.getLast?_eq_some_iff.mp hreturn
    have hl : '\n' ∉ l := fun hmem => h (List.mem_append_left _ hmem)
    have hsplit := unifyBreaks_append (a := l) (b := ['\r'] ++ '\n' :: cs)
      fun _ => by simp
    have hreturn : unifyBreaks (['\r'] ++ '\n' :: cs) = unifyBreaks ('\n' :: cs) := rfl
    rw [List.append_assoc, List.dropLast_concat, hsplit, hreturn, hbreak,
      unifyBreaks_of_not_mem hl]
  · rename_i hreturn
    rw [unifyBreaks_append fun hlast => absurd hlast hreturn, unifyBreaks_of_not_mem h, hbreak]

theorem lines_append {l : List Char} (h : '\n' ∉ l) (cs : List Char) :
    lines (l ++ '\n' :: cs) = dropReturn l :: lines cs := by
  have hfields : fields (· == '\n') (l ++ '\n' :: cs) = l :: fields (· == '\n') cs :=
    fields_append_cons (fun x hx => by simpa using ne_of_mem_of_not_mem hx h) (by decide) cs
  obtain ⟨ended, last, hlast⟩ : ∃ ended last, fields (· == '\n') cs = ended ++ [last] :=
    ⟨_, _, (List.dropLast_concat_getLast (fields_ne_nil cs)).symm⟩
  have hall : fields (· == '\n') (l ++ '\n' :: cs) = (l :: ended) ++ [last] := by
    rw [hfields, hlast, List.cons_append]
  rw [lines_eq hlast, lines_eq hall, List.map_cons, List.cons_append]

theorem lines_of_not_mem {cs : List Char} (h : '\n' ∉ cs) (hne : cs ≠ []) : lines cs = [cs] := by
  have hfields : fields (· == '\n') cs = [cs] :=
    fields_eq_singleton fun x hx => by simpa using ne_of_mem_of_not_mem hx h
  rw [lines, hfields]
  simp [hne]

/-- **The lines of a text, ended by line feeds, are the text with its line breaks unified**; at the
end there may be one line feed more. -/
theorem exists_flatMap_lines (cs : List Char) : ∃ tail, (tail = [] ∨ tail = ['\n']) ∧
    (lines cs).flatMap (· ++ ['\n']) = unifyBreaks cs ++ tail := by
  by_cases h : '\n' ∈ cs
  · obtain ⟨l, rest, hcs, hl⟩ := List.eq_append_cons_of_mem h
    have hshorter : rest.length < cs.length := by
      rw [hcs, List.length_append, List.length_cons]
      omega
    obtain ⟨tail, htail, hrest⟩ := exists_flatMap_lines rest
    refine ⟨tail, htail, ?_⟩
    rw [hcs, lines_append hl, unifyBreaks_line hl, List.flatMap_cons, hrest]
    simp
  · by_cases hne : cs = []
    · subst hne
      exact ⟨[], .inl rfl, rfl⟩
    · refine ⟨['\n'], .inr rfl, ?_⟩
      rw [lines_of_not_mem h hne, unifyBreaks_of_not_mem h, List.flatMap_singleton]
termination_by cs.length

end Text

namespace Bracket

/-! ## Groups with blanks between them -/

/-- A text of groups, with blanks between and around them. -/
inductive Spaced : List Char → List (List Char) → Prop where
  | nil : Spaced [] []
  | blank {c : Char} {cs : List Char} {gs : List (List Char)} : Text.isBlank c = true →
    Spaced cs gs → Spaced (c :: cs) gs
  | group {g cs : List Char} {gs : List (List Char)} : IsGroup g → Spaced cs gs →
    Spaced (g ++ cs) (g :: gs)

/-- A group as its opening parenthesis and what follows. -/
theorem IsGroup.exists_cons {g : List Char} (hg : IsGroup g) : ∃ w, g = '(' :: w := by
  obtain ⟨w, rfl, -⟩ := hg.exists_inner
  exact ⟨_, rfl⟩

/-- No line break begins within a group and ends behind it. -/
theorem IsGroup.getLast?_ne {g : List Char} (hg : IsGroup g) : g.getLast? ≠ some '\r' := by
  obtain ⟨w, rfl, -⟩ := hg.exists_inner
  rw [← List.cons_append, List.getLast?_concat]
  decide

namespace Spaced

variable {cs : List Char} {gs : List (List Char)} {c : Char}

theorem concat_newline (h : Spaced cs gs) : Spaced (cs ++ ['\n']) gs := by
  induction h with
  | nil => exact .blank rfl .nil
  | blank hc _ ih => exact .blank hc ih
  | group hg _ ih =>
    rw [List.append_assoc]
    exact .group hg ih

theorem unifyBreaks (h : Spaced cs gs) :
    Spaced (Text.unifyBreaks cs) (gs.map Text.unifyBreaks) := by
  induction h with
  | nil => exact .nil
  | blank hc _ ih =>
    rw [Text.unifyBreaks]
    split
    · exact ih
    · exact .blank hc ih
  | group hg _ ih =>
    rw [Text.unifyBreaks_append fun hlast => absurd hlast hg.getLast?_ne]
    exact .group hg.unifyBreaks ih

theorem eq_nil (h : Spaced [] gs) : gs = [] := by
  generalize htext : ([] : List Char) = text at h
  cases h with
  | nil => rfl
  | blank => cases htext
  | group hg _ => exact absurd (List.append_eq_nil_iff.mp htext.symm).1 hg.ne_nil

theorem isGroup (h : Spaced cs gs) : ∀ g ∈ gs, IsGroup g := by
  induction h with
  | nil => exact fun _ hg => absurd hg List.not_mem_nil
  | blank _ _ ih => exact ih
  | group hg _ ih => exact List.forall_mem_cons.mpr ⟨hg, ih⟩

/-- Behind a blank the same groups follow. -/
theorem of_blank (h : Spaced (c :: cs) gs) (hc : Text.isBlank c = true) : Spaced cs gs := by
  generalize htext : c :: cs = text at h
  cases h with
  | nil => cases htext
  | blank _ h =>
    rw [(List.cons.inj htext).2]
    exact h
  | group hg _ =>
    obtain ⟨w, rfl⟩ := hg.exists_cons
    rw [(List.cons.inj htext).1] at hc
    cases hc

/-- A group at the beginning is the first of the groups. -/
theorem of_group {g : List Char} (h : Spaced (g ++ cs) gs) (hg : IsGroup g) :
    ∃ gs', gs = g :: gs' ∧ Spaced cs gs' := by
  generalize htext : g ++ cs = text at h
  cases h with
  | nil => exact absurd (List.append_eq_nil_iff.mp htext).1 hg.ne_nil
  | blank hc _ =>
    obtain ⟨w, rfl⟩ := hg.exists_cons
    rw [← (List.cons.inj htext).1] at hc
    cases hc
  | group hg' h =>
    obtain ⟨rfl, rfl⟩ := hg.unique hg' htext
    exact ⟨_, rfl, h⟩

/-- The first character is a blank or an opening parenthesis. -/
theorem head_eq (h : Spaced (c :: cs) gs) : Text.isBlank c = true ∨ c = '(' := by
  generalize htext : c :: cs = text at h
  cases h with
  | nil => cases htext
  | blank hc _ => exact .inl ((List.cons.inj htext).1 ▸ hc)
  | group hg _ =>
    obtain ⟨w, rfl⟩ := hg.exists_cons
    exact .inr (List.cons.inj htext).1

/-- Every group that begins ends. -/
theorem not_begun {depth : Nat} (h : Spaced cs gs) : ¬ Begun depth cs := fun hbegun => by
  cases h with
  | nil => exact hbegun.ne_nil rfl
  | blank hc _ =>
    rw [Option.some.inj hbegun.opens] at hc
    cases hc
  | group hg _ => exact hg.not_begun hbegun

end Spaced

/-! ## How they are read -/

/-- The characters of a stream all of whose lines are UTF-8. -/
theorem symbolsFrom_text (ls : List (List Char)) : ∀ n : Nat,
    textOf (symbolsFrom n (ls.map some)) = ls.flatMap (· ++ ['\n']) ∧
      ∀ s ∈ symbolsFrom n (ls.map some), s.char ≠ none := by
  induction ls with
  | nil => exact fun _ => ⟨rfl, fun _ hs => absurd hs List.not_mem_nil⟩
  | cons l ls ih =>
    intro n
    obtain ⟨htext, hall⟩ := ih (n + 1)
    have hline : textOf (lineSymbols n (some l)) = l ++ ['\n'] := by
      rw [textOf, lineSymbols, List.filterMap_map]
      exact List.filterMap_some
    rw [List.map_cons, symbolsFrom, textOf_append, htext, hline, List.flatMap_cons]
    refine ⟨rfl, fun s hs => (List.mem_append.mp hs).elim (fun hs => ?_) (hall s)⟩
    obtain ⟨c, -, rfl⟩ := List.mem_map.mp hs
    exact Option.some_ne_none c

theorem undecoded_eq_nil {piece : List Symbol} (h : ∀ s ∈ piece, s.char ≠ none) :
    undecoded piece = [] :=
  List.eq_nil_iff_forall_not_mem.mpr fun _ he =>
    let ⟨s, hs, hnone, _⟩ := mem_undecoded.mp he
    h s hs hnone

/-- **A text of groups is divided into these groups** and the blanks between them. -/
theorem Divided.groups {ss : List Symbol} {ps : List Part} (h : Divided ss ps) :
    ∀ {gs : List (List Char)}, (∀ s ∈ ss, s.char ≠ none) → Spaced (textOf ss) gs →
      ps.flatMap Part.errors = [] ∧
        ps.filterMap Part.tree? = gs.map fun g => parseTree (String.ofList g) := by
  induction h with
  | nil =>
    intro gs _ hspaced
    rw [hspaced.eq_nil]
    exact ⟨rfl, rfl⟩
  | @cons p _ _ hfits _ ih =>
    intro gs hall hspaced
    have hpart := fun s hs => hall s (List.mem_append_left _ hs)
    have hrest := fun s hs => hall s (List.mem_append_right p.symbols hs)
    rw [textOf_append] at hspaced
    rw [List.flatMap_cons]
    cases hfits with
    | @between s rest hblank =>
      obtain ⟨c, hc⟩ := Option.ne_none_iff_exists'.mp (hpart s List.mem_cons_self)
      have htext : textOf (Part.between s).symbols = [c] := List.filterMap_cons_some hc
      have hnone : undecoded [s] = [] := undecoded_eq_nil hpart
      rw [htext] at hspaced
      rw [Part.errors, hnone]
      exact ih hrest (hspaced.of_blank (hblank c hc))
    | @tree piece rest htree =>
      have hnone : undecoded piece = [] := undecoded_eq_nil hpart
      obtain ⟨gs', rfl, hgroups⟩ := hspaced.of_group htree.group
      obtain ⟨herrors, htrees⟩ := ih hrest hgroups
      rw [Part.errors, hnone, herrors]
      exact ⟨rfl, congrArg (_ :: ·) htrees⟩
    | stray hblank hopening =>
      rcases hspaced.head_eq with hc | hc
      · cases hblank.symm.trans hc
      · exact absurd hc hopening
    | @unclosed piece hunclosed =>
      obtain ⟨depth, hbegun⟩ := hunclosed.begun
      exact absurd (List.append_nil (textOf piece) ▸ hbegun) hspaced.not_begun

/-- **A text of groups is read as these groups.** -/
theorem itemsOfText_of_spaced {text : String} {gs : List (List Char)}
    (h : Spaced text.toList gs) :
    itemsOfText text = gs.map fun g => parseTree (String.ofList (Text.unifyBreaks g)) := by
  obtain ⟨tail, htail, hlines⟩ := Text.exists_flatMap_lines text.toList
  obtain ⟨htext, hall⟩ := symbolsFrom_text (Text.lines text.toList) 1
  have hspaced : Spaced (Text.unifyBreaks text.toList ++ tail) (gs.map Text.unifyBreaks) := by
    rcases htail with rfl | rfl
    · rw [List.append_nil]
      exact h.unifyBreaks
    · exact h.unifyBreaks.concat_newline
  rw [← hlines, ← htext] at hspaced
  obtain ⟨ps, hps⟩ := exists_division ((Text.lines text.toList).map some)
  obtain ⟨herrors, htrees⟩ := hps.groups hall hspaced
  -- there are no errors among the items, so they are the trees
  have hok : ∀ i ∈ itemsOfText text, i.isOk = true := by
    intro i hi
    cases i with
    | ok t => rfl
    | error e =>
      have he : e ∈ ps.flatMap Part.errors := List.mem_flatMap.mpr (hps.error_mem_items.mp hi)
      rw [herrors] at he
      cases he
  rw [← List.filter_eq_self.mpr hok, itemsOfText, hps.filter_isOk, htrees, List.map_map]
  rfl

/-! ## Where errors come from -/

theorem line_of_undecoded {s : Symbol} : ∀ {ls : List Line} {n : Nat}, s ∈ symbolsFrom n ls →
    s.char = none → ∃ i, ls[i]? = some none ∧ s.line = n + i
  | [], _, hs, _ => absurd hs List.not_mem_nil
  | l :: ls, n, hs, hnone => by
    rcases List.mem_append.mp hs with hs | hs
    · refine ⟨0, ?_, line_of_mem_lineSymbols hs⟩
      cases l with
      | none => rfl
      | some cs =>
        obtain ⟨c, -, rfl⟩ := List.mem_map.mp hs
        cases hnone
    · obtain ⟨i, hi, hline⟩ := line_of_undecoded hs hnone
      exact ⟨i + 1, hi, by omega⟩

/-- **What an error comes from**: stray text, a tree at the end that is not closed, or a line that
is not UTF-8. -/
theorem Divided.source_of_error {ls : List Line} {ps : List Part}
    (h : Divided (symbolsFrom 1 ls) ps) {e : ParseError} (he : .error e ∈ items ls) :
    (∃ c rest, .stray e.line c rest ∈ ps ∧ e.cause = .stray c) ∨
      (∃ piece, .unclosed piece ∈ ps ∧ e = ⟨firstLine piece, .endsInsideTree⟩) ∨
      ∃ i, ls[i]? = some none ∧ e = ⟨i + 1, .undecodable⟩ := by
  obtain ⟨p, hp, he⟩ := h.error_mem_items.mp he
  have hundecoded : e ∈ undecoded p.symbols →
      ∃ i, ls[i]? = some none ∧ e = ⟨i + 1, .undecodable⟩ := by
    intro he
    obtain ⟨s, hs, hnone, rfl⟩ := mem_undecoded.mp he
    obtain ⟨i, hi, hline⟩ := line_of_undecoded
      (h.symbols ▸ List.mem_flatMap.mpr ⟨p, hp, hs⟩ : s ∈ symbolsFrom 1 ls) hnone
    exact ⟨i, hi, by rw [hline, Nat.add_comm]⟩
  cases p with
  | between | tree => exact .inr (.inr (hundecoded he))
  | stray line c rest =>
    rw [List.mem_singleton.mp he]
    exact .inl ⟨c, rest, hp, rfl⟩
  | unclosed piece =>
    rcases List.mem_append.mp he with he | he
    · exact .inr (.inr (hundecoded he))
    · exact .inr (.inl ⟨piece, hp, List.mem_singleton.mp he⟩)

/-- **Groups are read in order, and nothing else makes an item.** A text of groups with blanks
between and around them gives the trees of the groups, with line breaks unified, and no error.
Whatever the stream, the calls give its items one after the other and then nothing; what is queued
is accepted as a tree; parentheses are counted without falling below zero; and an error comes of
stray text, of a tree at the end that is not closed, or of a line that is not UTF-8. -/
theorem groups_are_read_in_order :
    (∀ (text : String) (gs : List (List Char)), Spaced text.toList gs →
      itemsOfText text = gs.map (fun g => parseTree (String.ofList (Text.unifyBreaks g))) ∧
        ∀ g ∈ gs, ∃ t, parseTree (String.ofList (Text.unifyBreaks g)) = .ok t ∧
          parseTree (String.ofList g) = .ok t) ∧
      ∀ ls : List Line,
        (∀ k, ((TreeStream.start ls).after k).next.1 = (items ls)[k]?) ∧
        (∀ k n cs, ∀ g ∈ ((TreeStream.start ls).after k).ready ++
            (((TreeStream.start ls).after k).reader.scan n cs).groups,
          ∃ t, parseTree (String.ofList g.2) = .ok t) ∧
        (∀ k n cs, ((TreeStream.start ls).after k).reader.scan? n cs =
          some (((TreeStream.start ls).after k).reader.scan n cs)) ∧
        ∃ ps, (∀ qs, Divided (symbolsFrom 1 ls) qs ↔ qs = ps) ∧
          ∀ e, .error e ∈ items ls →
            (∃ c rest, .stray e.line c rest ∈ ps ∧ e.cause = .stray c) ∨
            (∃ piece, .unclosed piece ∈ ps ∧ e = ⟨firstLine piece, .endsInsideTree⟩) ∨
            ∃ i, ls[i]? = some none ∧ e = ⟨i + 1, .undecodable⟩ := by
  refine ⟨fun text gs h => ⟨itemsOfText_of_spaced h, fun g hg => ?_⟩, fun ls =>
    ⟨TreeStream.next_after ls, fun k n cs g hg => ?_, fun k n cs => Reader.scan?_eq .., ?_⟩⟩
  · obtain ⟨t, ht⟩ := parseTree_group (h.isGroup g hg)
    refine ⟨t, ?_, ht⟩
    rw [← ht, parseTree, parseTree, String.toList_ofList, String.toList_ofList, parse_unifyBreaks]
  · have hsound := TreeStream.sound_after ls k
    obtain ⟨piece, hpiece⟩ := hsound.tracks
    rcases List.mem_append.mp hg with hg | hg
    · exact parseTree_group (hsound.ready g hg)
    · exact parseTree_group ((hpiece.scanned cs).isGroup g hg)
  · obtain ⟨ps, hps⟩ := exists_division ls
    exact ⟨ps, hps.iff_eq, fun e he => hps.source_of_error he⟩

/-- Two groups, of which the first is laid out on two lines. -/
theorem two_groups_are_read :
    Spaced "(S\r\n a)\n (B b)".toList ["(S\r\n a)".toList, "(B b)".toList] ∧
      itemsOfText "(S\r\n a)\n (B b)" = [parseTree "(S\n a)", parseTree "(B b)"] := by
  have hsecond : Spaced "\n (B b)".toList ["(B b)".toList] :=
    .blank rfl (.blank rfl (.group (g := "(B b)".toList) (by decide) .nil))
  have hspaced : Spaced "(S\r\n a)\n (B b)".toList ["(S\r\n a)".toList, "(B b)".toList] :=
    .group (g := "(S\r\n a)".toList) (by decide) hsecond
  exact ⟨hspaced, (groups_are_read_in_order.1 _ _ hspaced).1⟩

end Bracket

end Constituency
