import Mathlib.Data.List.Infix
import Constituency.Proofs.Bracket.Items

/-!
# Groups of parentheses

A group begins with an opening parenthesis that its last character closes, and not before
(`IsGroup`). Of a group that has only begun, the parentheses still open can be counted (`Begun`),
and each further character moves that number by one at most. No group is the beginning of another
one (`IsGroup.unique`), so a text falls into groups in one way.

Every group is accepted as a tree (`parse_group`): while it is read, the number of nodes on the
stack is the number of parentheses that are open.
-/

namespace Constituency.Bracket

/-- An opening parenthesis and all up to the parenthesis that closes it. -/
structure IsGroup (g : List Char) : Prop where
  opens : g.head? = some '('
  balanced : g.count '(' = g.count ')'
  within : ∀ p, p <+: g → p ≠ [] → p ≠ g → p.count ')' < p.count '('

/-- Only finitely many beginnings have to be looked at. -/
theorem isGroup_iff_inits {g : List Char} : IsGroup g ↔ g.head? = some '(' ∧
    g.count '(' = g.count ')' ∧
      ∀ p ∈ g.inits, p ≠ [] → p ≠ g → p.count ')' < p.count '(' := by
  constructor
  · exact fun h => ⟨h.opens, h.balanced, fun p hp => h.within p ((List.mem_inits p g).mp hp)⟩
  · exact fun ⟨hopens, hbalanced, hwithin⟩ =>
      ⟨hopens, hbalanced, fun p hp => hwithin p ((List.mem_inits p g).mpr hp)⟩

instance (g : List Char) : Decidable (IsGroup g) :=
  decidable_of_iff _ isGroup_iff_inits.symm

/-- The beginning of a group, with the number of parentheses that are still open. -/
structure Begun (depth : Nat) (w : List Char) : Prop where
  opens : w.head? = some '('
  depth_eq : w.count '(' = depth + w.count ')'
  within : ∀ p, p <+: w → p ≠ [] → p.count ')' < p.count '('

namespace Begun

variable {depth : Nat} {w : List Char} {c : Char}

theorem ne_nil (h : Begun depth w) : w ≠ [] := fun hnil => by
  have hopens := h.opens
  rw [hnil] at hopens
  exact absurd hopens (by simp)

theorem pos (h : Begun depth w) : 0 < depth := by
  have hall := h.within w (List.prefix_refl w) h.ne_nil
  have hdepth := h.depth_eq
  omega

theorem first : Begun 1 ['('] := by
  refine ⟨rfl, rfl, fun p hp hne => ?_⟩
  rcases List.prefix_cons_iff.mp hp with hp | ⟨q, rfl, hq⟩
  · exact absurd hp hne
  · rw [List.prefix_nil.mp hq]
    decide

/-- One more character that leaves a parenthesis open. -/
theorem push {depth' : Nat} (h : Begun depth w)
    (hdepth : depth' + [c].count ')' = depth + [c].count '(') (hpos : 0 < depth') :
    Begun depth' (w ++ [c]) := by
  have hcount : (w ++ [c]).count '(' = depth' + (w ++ [c]).count ')' := by
    have hw := h.depth_eq
    rw [List.count_append, List.count_append]
    omega
  refine ⟨?_, hcount, fun p hp hne => ?_⟩
  · rw [List.head?_append, h.opens]
    rfl
  · rcases List.prefix_concat_iff.mp hp with rfl | hp
    · omega
    · exact h.within p hp hne

/-- The character that closes the last open parenthesis. -/
theorem close (h : Begun 1 w) : IsGroup (w ++ [')']) := by
  refine ⟨?_, ?_, fun p hp hne hwhole => ?_⟩
  · rw [List.head?_append, h.opens]
    rfl
  · have hw := h.depth_eq
    rw [List.count_append, List.count_append]
    simp only [List.count_singleton_self, show [')'].count '(' = 0 from rfl]
    omega
  · rcases List.prefix_concat_iff.mp hp with hp | hp
    · exact absurd hp hwhole
    · exact h.within p hp hne

end Begun

namespace IsGroup

variable {g h w a b : List Char} {depth : Nat}

theorem ne_nil (hg : IsGroup g) : g ≠ [] := fun hnil => by
  have hopens := hg.opens
  rw [hnil] at hopens
  exact absurd hopens (by simp)

/-- A group is not a proper beginning of something in which a parenthesis is always open. -/
theorem eq_of_begins (hg : IsGroup g) (hh : IsGroup h) (hbegins : g <+: h) : g = h := by
  by_contra hne
  have hwithin := hh.within g hbegins hg.ne_nil hne
  have hbalanced := hg.balanced
  omega

/-- **Texts that go on behind a group begin with the same group.** -/
theorem unique (hg : IsGroup g) (hh : IsGroup h) (heq : g ++ a = h ++ b) : g = h ∧ a = b := by
  have hsame : g = h := by
    rcases List.prefix_or_prefix_of_prefix (List.prefix_append g a)
      (heq ▸ List.prefix_append h b) with hbegins | hbegins
    · exact hg.eq_of_begins hh hbegins
    · exact (hh.eq_of_begins hg hbegins).symm
  subst hsame
  exact ⟨rfl, List.append_cancel_left heq⟩

/-- A group that has only begun does not begin with a whole group. -/
theorem not_begun (hg : IsGroup g) : ¬ Begun depth (g ++ a) := fun hbegun => by
  have hwithin := hbegun.within g (List.prefix_append g a) hg.ne_nil
  have hbalanced := hg.balanced
  omega

/-- A group is what stands between its two outermost parentheses, with these. -/
theorem exists_inner (hg : IsGroup g) : ∃ w, g = '(' :: (w ++ [')']) ∧
    w.count '(' = w.count ')' ∧ ∀ p, p <+: w → p.count ')' ≤ p.count '(' := by
  obtain ⟨rest, rfl⟩ : ∃ rest, g = '(' :: rest := by
    cases g with
    | nil => exact absurd rfl hg.ne_nil
    | cons c rest => exact ⟨rest, by rw [Option.some.inj hg.opens]⟩
  have hbalanced := hg.balanced
  rcases List.eq_nil_or_concat rest with rfl | ⟨w, c, hlast⟩
  · exact absurd hbalanced (by decide)
  · rw [List.concat_eq_append] at hlast
    subst hlast
    have hinner : ∀ p, p <+: w → p.count ')' ≤ p.count '(' := by
      intro p hp
      have hlt := hg.within ('(' :: p)
        ((List.prefix_cons_inj _).mpr (hp.trans (List.prefix_append w [c])))
        (List.cons_ne_nil _ _) fun heq => by
          have hlength := hp.length_le
          rw [(List.cons.inj heq).2, List.length_append, List.length_singleton] at hlength
          omega
      rw [List.count_cons_self, List.count_cons_of_ne (by decide)] at hlt
      omega
    have hw := hinner w (List.prefix_refl w)
    rw [List.count_cons_self, List.count_cons_of_ne (by decide), List.count_append,
      List.count_append] at hbalanced
    -- the last character has to close what the first one opened
    have hclosing : c = ')' := by
      by_contra hne
      have hnone : [c].count ')' = 0 := List.count_eq_zero.mpr (by simpa using Ne.symm hne)
      omega
    subst hclosing
    have hnone : [')'].count '(' = 0 := rfl
    have hone : [')'].count ')' = 1 := rfl
    exact ⟨w, rfl, by omega, hinner⟩

end IsGroup

/-! ## Every group is accepted -/

/-- An atom leaves the stack as high as it was. -/
theorem run_pendingAtom (line : Nat) (pending : List Char) (f : Frame) (fs : List Frame) :
    ∃ g, (pendingAtom line pending).foldlM Progress.step (.reading (f :: fs)) =
      .ok (.reading (g :: fs)) := by
  rw [pendingAtom]
  split
  · exact ⟨f, rfl⟩
  · have hstep := step_atom line f fs pending.reverse
    split at hstep
    · exact ⟨_, run_cons hstep⟩
    · exact ⟨_, run_cons hstep⟩

/-- **Reading inside parentheses.** What never closes the outermost open node is read, and leaves as
many nodes open as the parentheses say. -/
theorem run_inside (k : List Char) : ∀ (w : List Char) (line : Nat) (pending : List Char)
    (f : Frame) (fs : List Frame), (∀ p, p <+: w → p.count ')' ≤ fs.length + p.count '(') →
      ∃ line' pending' g gs, gs.length + w.count ')' = fs.length + w.count '(' ∧
        (tokensFrom line pending (w ++ k)).foldlM Progress.step (.reading (f :: fs)) =
          (tokensFrom line' pending' k).foldlM Progress.step (.reading (g :: gs)) := by
  intro w
  induction w with
  | nil => exact fun line pending f fs _ => ⟨line, pending, f, fs, rfl, rfl⟩
  | cons c w ih =>
    intro line pending f fs hopen
    have htail : ∀ p, p <+: w → (c :: p).count ')' ≤ fs.length + (c :: p).count '(' :=
      fun p hp => hopen _ ((List.prefix_cons_inj c).mpr hp)
    by_cases hdelimiter : isDelimiter c = true
    · obtain ⟨g, hatom⟩ := run_pendingAtom line pending f fs
      rw [List.cons_append, tokensFrom_of_endsAtom _ _ (endsAtom_cons hdelimiter),
        run_append hatom, tokensFrom_delimiter line hdelimiter]
      by_cases hopening : c = '('
      · subst hopening
        have hnext := ih line [] .fresh (g :: fs) fun p hp => by
          have hcount := htail p hp
          rw [List.count_cons_self, List.count_cons_of_ne (by decide)] at hcount
          rw [List.length_cons]
          omega
        obtain ⟨line', pending', h, hs, hlength, hrun⟩ := hnext
        refine ⟨line', pending', h, hs, ?_, hrun⟩
        rw [List.length_cons] at hlength
        rw [List.count_cons_self, List.count_cons_of_ne (by decide)]
        omega
      · by_cases hclosing : c = ')'
        · subst hclosing
          cases fs with
          | nil => exact absurd (htail [] List.nil_prefix) (by decide)
          | cons f' fs =>
            have hnext := ih line [] (f'.add g.close) fs fun p hp => by
              have hcount := htail p hp
              rw [List.count_cons_self, List.count_cons_of_ne (by decide), List.length_cons]
                at hcount
              omega
            obtain ⟨line', pending', h, hs, hlength, hrun⟩ := hnext
            refine ⟨line', pending', h, hs, ?_, hrun⟩
            rw [List.length_cons, List.count_cons_self, List.count_cons_of_ne (by decide)]
            omega
        · have hnext := ih (if c == '\n' then line + 1 else line) [] g fs fun p hp => by
            have hcount := htail p hp
            rwa [List.count_cons_of_ne hopening, List.count_cons_of_ne hclosing] at hcount
          rw [List.count_cons_of_ne hopening, List.count_cons_of_ne hclosing,
            if_neg (by simpa using hopening), if_neg (by simpa using hclosing)]
          exact hnext
    · have hopening : c ≠ '(' := by
        rintro rfl
        exact hdelimiter (by decide)
      have hclosing : c ≠ ')' := by
        rintro rfl
        exact hdelimiter (by decide)
      have hnext := ih line (c :: pending) f fs fun p hp => by
        have hcount := htail p hp
        rwa [List.count_cons_of_ne hopening, List.count_cons_of_ne hclosing] at hcount
      rw [List.count_cons_of_ne hopening, List.count_cons_of_ne hclosing, List.cons_append,
        tokensFrom, if_neg hdelimiter]
      exact hnext

/-- **Every group is accepted.** -/
theorem parse_group {g : List Char} (hg : IsGroup g) : ∃ c, parse g = .ok c := by
  obtain ⟨w, rfl, hbalanced, hwithin⟩ := hg.exists_inner
  obtain ⟨line, pending, f, fs, hlength, hrun⟩ := run_inside [')'] w 1 [] .fresh []
    fun p hp => Nat.le_trans (hwithin p hp) (Nat.le_add_left ..)
  -- as many parentheses were closed as opened, so only the outermost node is left
  obtain rfl : fs = [] := by
    rw [List.length_nil] at hlength
    exact List.length_eq_zero_iff.mp (by omega)
  obtain ⟨f', hatom⟩ := run_pendingAtom line pending f []
  have hfinished : (tokens ('(' :: (w ++ [')']))).foldlM Progress.step (.reading []) =
      .ok (.finished f'.close) := by
    have hopening : tokens ('(' :: (w ++ [')'])) =
        ⟨1, .opening⟩ :: tokensFrom 1 [] (w ++ [')']) := rfl
    rw [hopening, run_cons (q := .reading [.fresh]) rfl, hrun,
      tokensFrom_of_endsAtom _ _ (endsAtom_cons (by decide)), run_append hatom]
    rfl
  exact ⟨_, parse_iff.mpr ⟨f'.close, run_eq_finished_iff.mp hfinished, rfl⟩⟩

theorem parseTree_group {g : List Char} (hg : IsGroup g) :
    ∃ t, parseTree (String.ofList g) = .ok t := by
  obtain ⟨c, hc⟩ := parse_group hg
  exact ⟨_, Tree.parseTree_iff.mpr ⟨c, by rw [String.toList_ofList, hc], rfl⟩⟩

/-! ## Groups with other line breaks -/

/-- Unified line breaks leave all other characters as many as they were. -/
theorem count_unifyBreaks_of_ne {x : Char} (hx : x ≠ '\r') (cs : List Char) :
    (Text.unifyBreaks cs).count x = cs.count x := by
  induction cs with
  | nil => rfl
  | cons c cs ih =>
    rw [Text.unifyBreaks]
    split
    · rename_i hbreak
      rw [Bool.and_eq_true, beq_iff_eq] at hbreak
      rw [ih, hbreak.1, List.count_cons_of_ne hx.symm]
    · rw [List.count_cons, List.count_cons, ih]

/-- The beginnings of a text with unified line breaks are beginnings of the text, unified. -/
theorem exists_prefix_of_unifyBreaks {cs : List Char} : ∀ {p : List Char},
    p <+: Text.unifyBreaks cs → ∃ q, q <+: cs ∧ Text.unifyBreaks q = p := by
  induction cs with
  | nil => exact fun hp => ⟨[], List.prefix_refl _, (List.prefix_nil.mp hp).symm⟩
  | cons c cs ih =>
    intro p hp
    rw [Text.unifyBreaks] at hp
    split at hp
    · rename_i hbreak
      obtain ⟨q, hq, rfl⟩ := ih hp
      rw [Bool.and_eq_true, beq_iff_eq] at hbreak
      cases q with
      | nil => exact ⟨[], List.nil_prefix, rfl⟩
      | cons d q =>
        refine ⟨c :: d :: q, (List.prefix_cons_inj c).mpr hq, ?_⟩
        obtain ⟨rest, rfl⟩ := hq
        rw [Text.unifyBreaks, if_pos (by simpa [hbreak.1] using hbreak.2)]
    · rename_i hbreak
      rcases List.prefix_cons_iff.mp hp with rfl | ⟨p, rfl, hrest⟩
      · exact ⟨[], List.nil_prefix, rfl⟩
      · obtain ⟨q, hq, rfl⟩ := ih hrest
        refine ⟨c :: q, (List.prefix_cons_inj c).mpr hq, ?_⟩
        obtain ⟨rest, rfl⟩ := hq
        rw [Text.unifyBreaks, if_neg fun hq => hbreak ?_]
        cases q with
        | nil => exact absurd hq (by simp)
        | cons d q => exact hq

theorem IsGroup.unifyBreaks {g : List Char} (hg : IsGroup g) : IsGroup (Text.unifyBreaks g) := by
  have hopen := count_unifyBreaks_of_ne (x := '(') (by decide)
  have hclose := count_unifyBreaks_of_ne (x := ')') (by decide)
  refine ⟨?_, by rw [hopen, hclose, hg.balanced], fun p hp hne hwhole => ?_⟩
  · obtain ⟨w, rfl, -⟩ := hg.exists_inner
    rfl
  · obtain ⟨q, hq, rfl⟩ := exists_prefix_of_unifyBreaks hp
    rw [hopen, hclose]
    exact hg.within q hq (fun hnil => hne (by rw [hnil]; rfl)) fun hall => hwhole (by rw [hall])

end Constituency.Bracket
