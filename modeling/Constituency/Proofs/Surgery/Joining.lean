import Constituency.Proofs.Surgery.Positions
import Constituency.Proofs.Surgery.Scripts

/-!
# Scripts one after the other

A script with a line end and a second script behind it is read as the operations of the first and
then those of the second (`Script.parse_lines`), unless the first has an open label: a bare label
that begins like one between delimiters, and that a delimiter in the second script would close.

Each operation of the first script stays as it is because a line follows. The second script is read
as it would be by itself, except that its parts start later, and no reader of parts looks at where
they start unless something is wrong.
-/

namespace Constituency

open Grammar ScriptRule

namespace Script

/-! ## Reading both scripts -/

section operations

variable {n d : Nat} {cs s z : List Char} {ps qs : List (Parse ScriptRule)}

/-- Operations behind other text. -/
theorem ReadsOperations.moved (h : ReadsOperations n cs ps) (hn : cs.length ≤ n) :
    ReadsOperations (n + d) cs (ps.map (Parse.moved d)) := by
  induction h with
  | nil => exact .nil
  | @cons cs cs' p ps hop hsep _ ih =>
    have hlength := hop.length_le
    have hnext : (nextOperation cs').length ≤ cs'.length := (nextFrom_suffix _ cs').length_le
    exact .cons (hop.behind bounds_hold rfl hn d) hsep (ih (by omega))

/-- What is skipped stays the same if a line follows. -/
theorem afterSpace_append (hz : z.head? = some '\n') (cs : List Char) :
    afterSpace (cs ++ z) = afterSpace cs ++ z := by
  have hfurther := (reads_space (n := 0) cs).further steady hz (steady.gap _)
  exact (Prod.mk.inj (Option.some.inj (hfurther.unique (reads_space (cs ++ z))))).1

theorem AtSeparator.append (h : AtSeparator cs) (hz : z.head? = some '\n') :
    AtSeparator (cs ++ z) := by
  intro c hc
  cases cs with
  | nil =>
    obtain rfl := Option.some.inj (hz.symm.trans hc)
    rfl
  | cons d cs => exact h c hc

/-- **Operations stay as they are if a line with others follows.** -/
theorem ReadsOperations.join (h : ReadsOperations s.length (nextOperation cs) ps) (hcs : cs <:+ s)
    (hclosed : ∀ p ∈ ps, p.any (isOpenLabel s) = false)
    (hw : ReadsOperations (s.length + ('\n' :: w).length) (nextOperation w) qs) :
    ReadsOperations (s.length + ('\n' :: w).length) (nextOperation (cs ++ '\n' :: w))
      (ps ++ qs) := by
  generalize hnext : nextOperation cs = next at h
  induction h generalizing cs with
  | nil =>
    have hjoined : nextOperation (cs ++ '\n' :: w) = nextOperation w :=
      (nextFrom_append false cs w).trans (if_pos (by rw [← nextOperation, hnext]; rfl))
    rw [hjoined]
    exact hw
  | @cons next cs' p ps hop hsep _ ih =>
    have hne : next ≠ [] := by
      rintro rfl
      have htakes := hop.takes bounds_hold rfl _ rfl
      exact Nat.not_lt_zero _ htakes
    have hjoined : nextOperation (cs ++ '\n' :: w) = next ++ '\n' :: w := by
      rw [← hnext]
      refine (nextFrom_append false cs w).trans (if_neg ?_)
      rw [← nextOperation, hnext]
      simpa using hne
    have hsuffix : next <:+ s := hnext ▸ (nextFrom_suffix false cs).trans hcs
    have hfurther := keeps_operation s (z := '\n' :: w) rfl _ _ _ hsuffix hop
      ⟨hsep, fun q hq => hclosed q (List.mem_singleton.mp hq ▸ List.mem_cons_self ..)⟩
    rw [hjoined]
    refine .cons hfurther ?_ (ih (hop.suffix_some.trans hsuffix)
      (fun q hq => hclosed q (List.mem_cons_of_mem p hq)) rfl)
    rw [afterSpace_append rfl]
    exact hsep.append rfl

end operations

/-! ## Operations of both scripts -/

/-- Whether a script has an open label. -/
def leavesLabelOpen (source : String) : Bool :=
  (scriptGrammar.parse script source.toList).toOption.any
    fun p => p.any (isOpenLabel source.toList)

theorem operations_eq_ok {t : List Char} {os : List Operation} :
    ScriptReader.operations t none = .ok os ↔ ∃ ps, ReadsOperations t.length (nextOperation t) ps ∧
      ScriptReader.readOperations ⟨t, none⟩ ps = .ok os := by
  have hparse : ∀ ps, _ ↔ ReadsOperations t.length (nextOperation t) ps := fun ps => parse_script
  unfold ScriptReader.operations
  cases hp : scriptGrammar.parse script t with
  | error f =>
    refine iff_of_false (by simp) ?_
    rintro ⟨ps, hps, -⟩
    obtain ⟨p, hok, -⟩ := (hparse ps).mpr hps
    exact absurd (hp.symm.trans hok) (by simp)
  | ok p =>
    have hiff : ∀ ps, ReadsOperations t.length (nextOperation t) ps ↔
        p.parts.filter (·.rule == operation) = ps := by
      intro ps
      rw [← hparse, hp]
      simp
    simp only [hiff, exists_eq_left']

theorem parse_eq_ok {source : String} {s : Script} : Script.parse source = .ok s ↔
    ∃ os, ScriptReader.operations source.toList none = .ok os ∧ s = ⟨source, os, .standard⟩ := by
  rw [Script.parse, bind_eq_ok]
  exact exists_congr fun os => and_congr_right fun _ => ⟨fun h => (Except.ok.inj h).symm,
    fun h => h ▸ rfl⟩

/-- **A script with a second one on the lines behind it is read as both**, one after the other,
unless the first has a label that the second could close. -/
theorem parse_lines {source source' : String} {s s' : Script} (h : Script.parse source = .ok s)
    (h' : Script.parse source' = .ok s') (hclosed : leavesLabelOpen source = false) :
    Script.parse (source ++ "\n" ++ source') =
      .ok ⟨source ++ "\n" ++ source', s.operations ++ s'.operations, .standard⟩ := by
  obtain ⟨os, hos, rfl⟩ := parse_eq_ok.mp h
  obtain ⟨os', hos', rfl⟩ := parse_eq_ok.mp h'
  refine parse_eq_ok.mpr ⟨os ++ os', operations_eq_ok.mpr ?_, rfl⟩
  obtain ⟨ps, hps, hread⟩ := operations_eq_ok.mp hos
  obtain ⟨qs, hqs, hread'⟩ := operations_eq_ok.mp hos'
  have htext : (source ++ "\n" ++ source').toList =
      source.toList ++ '\n' :: source'.toList := by
    rw [String.toList_append, String.toList_append, List.append_assoc]
    rfl
  have hopen : ∀ p ∈ ps, p.any (isOpenLabel source.toList) = false := by
    obtain ⟨p, hparse, rfl⟩ := parse_script.mpr hps
    rw [leavesLabelOpen, hparse] at hclosed
    exact fun q hq => Parse.any_part hclosed (List.mem_of_mem_filter hq)
  have hlength : (source.toList ++ '\n' :: source'.toList).length =
      source'.toList.length + (source.toList.length + 1) := by
    rw [List.length_append, List.length_cons]
    omega
  have hmoved := hqs.moved (d := source.toList.length + 1) (nextFrom_suffix _ _).length_le
  rw [← hlength, List.length_append] at hmoved
  have hall := hps.join List.suffix_rfl hopen hmoved
  rw [← List.length_append] at hall
  rw [htext]
  refine ⟨_, hall, ScriptReader.readOperations_append ?_
    (ScriptReader.readOperations_moved _ _ _ _ _ hread')⟩
  have hfirst :=
    ScriptReader.readOperations_moved _ (source.toList ++ '\n' :: source'.toList) 0 _ _ hread
  rw [← Parse.movedAll_eq, Parse.movedAll_zero] at hfirst
  exact hfirst

theorem exists_of_isSome {ε α : Type} {x : Except ε α} (h : x.toOption.isSome = true) :
    ∃ a, x = .ok a := by
  cases x with
  | error e => exact absurd h (by simp [Except.toOption])
  | ok a => exact ⟨a, rfl⟩

theorem parse_lines_of_relabelling : ∃ s s', Script.parse "relabel n \"a b\"" = .ok s ∧
    Script.parse "% no more\ndelete n" = .ok s' ∧ leavesLabelOpen "relabel n \"a b\"" = false ∧
    Script.parse ("relabel n \"a b\"" ++ "\n" ++ "% no more\ndelete n") =
      .ok ⟨"relabel n \"a b\"" ++ "\n" ++ "% no more\ndelete n", s.operations ++ s'.operations,
        .standard⟩ := by
  obtain ⟨s, hs⟩ := exists_of_isSome (x := Script.parse "relabel n \"a b\"") (by decide +kernel)
  obtain ⟨s', hs'⟩ := exists_of_isSome (x := Script.parse "% no more\ndelete n") (by decide +kernel)
  have hclosed : leavesLabelOpen "relabel n \"a b\"" = false := by decide +kernel
  exact ⟨s, s', hs, hs', hclosed, parse_lines hs hs' hclosed⟩

/-- A label that is not closed is closed by the next line: of two operations one is left. -/
theorem open_label_takes_next_line : ¬ ∀ (source source' : String) (s s' : Script),
    Script.parse source = .ok s → Script.parse source' = .ok s' →
    ∃ t, Script.parse (source ++ "\n" ++ source') = .ok t ∧
      t.operations = s.operations ++ s'.operations := by
  intro hall
  obtain ⟨s, hs⟩ := exists_of_isSome (x := Script.parse "relabel n /a") (by decide +kernel)
  obtain ⟨s', hs'⟩ := exists_of_isSome (x := Script.parse "relabel m x/y/") (by decide +kernel)
  obtain ⟨t, ht, hoperations⟩ := hall _ _ s s' hs hs'
  have hone : ∀ {source : String} {s : Script},
      (Script.parse source).toOption.map (·.operations.length) = some 1 →
      Script.parse source = .ok s → s.operations.length = 1 := by
    intro source s hcount hs
    rw [hs] at hcount
    exact Option.some.inj hcount
  have hlength := congrArg List.length hoperations
  rw [List.length_append, hone (by decide +kernel) hs, hone (by decide +kernel) hs',
    hone (by decide +kernel) ht] at hlength
  exact absurd hlength (by decide)

end Script

end Constituency
