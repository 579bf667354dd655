import Constituency.Proofs.Surgery.Lines

/-!
# The operations of a script

A script is a list of operations with separators between them, before and behind them. As a
repetition of the grammar it is read from the left, and it may end before separators that lead to no
further operation. Here it is said by recursion on the operations (`Script.ReadsOperations`): each
of them ends before a separator, or at the end of the text, and the next one is read from the next
character that is no separator.
-/

namespace Constituency

open Grammar ScriptRule

namespace Script

variable {n : Nat}

/-- The operations that are read from a text that begins with one, or is empty. -/
inductive ReadsOperations (n : Nat) : List Char → List (Parse ScriptRule) → Prop where
  | nil : ReadsOperations n [] []
  | cons {cs cs' : List Char} {p : Parse ScriptRule} {ps : List (Parse ScriptRule)} :
    Reads scriptGrammar n .spaced (.rule operation) cs (some (cs', [p])) →
    AtSeparator (afterSpace cs') → ReadsOperations n (nextOperation cs') ps →
    ReadsOperations n cs (p :: ps)

/-- An operation behind separators. -/
def laterOperation : Expr ScriptRule := separator.oneOrMore ++ .rule operation

/-- What is skipped is known. -/
theorem afterSpace_of_gap {cs cs' : List Char} {qs : List (Parse ScriptRule)}
    (h : Reads scriptGrammar n .token (scriptGrammar.gap .spaced) cs (some (cs', qs))) :
    cs' = afterSpace cs :=
  (Prod.mk.inj (Option.some.inj ((reads_space cs).unique h))).1

theorem operation_parse {cs cs' : List Char} {ps : List (Parse ScriptRule)}
    (h : Reads scriptGrammar n .spaced (.rule operation) cs (some (cs', ps))) :
    ∃ p, ps = [p] ∧ p.rule = operation := by
  cases h with
  | rule _ _ _ => exact ⟨_, rfl, rfl⟩

theorem nextOperation_idem {cs : List Char} : nextOperation (nextOperation cs) = nextOperation cs :=
  nextOperation_of_spaceless
    (fun c hc => ⟨(nextFrom_head false cs c hc).1, (nextFrom_head false cs c hc).2.1⟩)
    fun c hc => (nextFrom_head false cs c hc).2.2

/-- Where there is nothing more than separators there is a separator, or nothing. -/
theorem atSeparator_of_nextOperation {cs : List Char} (h : Spaceless cs)
    (hnext : nextOperation cs = []) : AtSeparator cs := by
  intro c hc
  refine Decidable.byContradiction fun hsep => ?_
  have hhere := nextOperation_of_spaceless h fun x hx => by
    obtain rfl := Option.some.inj (hc.symm.trans hx)
    exact Bool.not_eq_true _ ▸ hsep
  rw [hnext] at hhere
  rw [← hhere] at hc
  exact absurd hc (by simp)

theorem laterOperation_inv {cs cs' : List Char} {ps : List (Parse ScriptRule)}
    (h : Reads scriptGrammar n .spaced laterOperation cs (some (cs', ps))) :
    (∃ c rest, cs = c :: rest ∧ isSeparator c = true) ∧
      Reads scriptGrammar n .spaced (.rule operation) (nextOperation cs) (some (cs', ps)) := by
  cases h with
  | seq hseps hgap hop =>
    have hhead : ∃ c rest, cs = c :: rest ∧ isSeparator c = true := by
      cases cs with
      | nil => exact absurd ((reads_noSeparators (by simp)).unique hseps) (by simp)
      | cons c rest =>
        refine ⟨c, rest, rfl, Decidable.byContradiction fun hno => ?_⟩
        have hnone := reads_noSeparators (n := n) fun x (hx : x ∈ (c :: rest).head?) => by
          obtain rfl := Option.some.inj hx
          exact Bool.not_eq_true _ ▸ hno
        exact absurd (hnone.unique hseps) (by simp)
    refine ⟨hhead, ?_⟩
    obtain ⟨c, rest, rfl, hc⟩ := hhead
    obtain ⟨last, hsome, hlast⟩ := reads_someSeparators (n := n) hc rest
    obtain ⟨rfl, rfl⟩ := Prod.mk.inj (Option.some.inj (hsome.unique hseps))
    rw [afterSpace_of_gap hgap, hlast] at hop
    exact hop

theorem reads_laterOperation {c : Char} (hc : isSeparator c = true) (cs : List Char)
    {o : Answer ScriptRule}
    (h : Reads scriptGrammar n .spaced (.rule operation) (nextOperation (c :: cs)) o) :
    Reads scriptGrammar n .spaced laterOperation (c :: cs) o := by
  obtain ⟨last, hsome, hlast⟩ := reads_someSeparators (n := n) hc cs
  rw [← hlast] at h
  rcases o with _ | ⟨rest, ps⟩
  · exact .noSecond hsome (reads_space last) h
  · exact .seq hsome (reads_space last) h

/-- The operations behind the first one, up to separators only. -/
theorem readsOperations_of_many {cs cs' : List Char} {ps : List (Parse ScriptRule)}
    (hcs : Spaceless cs)
    (h : Reads scriptGrammar n .spaced (.many laterOperation) cs (some (cs', ps)))
    (hend : nextOperation cs' = []) : AtSeparator cs ∧ ReadsOperations n (nextOperation cs) ps := by
  generalize hm : Expr.many laterOperation = m at h
  generalize ho : some (cs', ps) = o at h
  generalize hk : Kind.spaced = k at h
  induction h generalizing cs' ps with
  | manyNone _ _ =>
    obtain ⟨rfl, rfl⟩ := Prod.mk.inj (Option.some.inj ho)
    rw [hend]
    exact ⟨atSeparator_of_nextOperation hcs hend, .nil⟩
  | @manyLast _ _ _ cs₁ cs₂ _ _ hfirst hgap _ _ _ _ =>
    obtain rfl := hk
    obtain rfl := Expr.many.inj hm
    obtain ⟨rfl, rfl⟩ := Prod.mk.inj (Option.some.inj ho)
    obtain ⟨⟨c, rest, rfl, hc⟩, hop⟩ := laterOperation_inv hfirst
    obtain ⟨p, rfl, -⟩ := operation_parse hop
    have hsep : AtSeparator (afterSpace cs') :=
      atSeparator_of_nextOperation (spaceless_afterSpace cs')
        ((nextOperation_afterSpace cs').trans hend)
    refine ⟨fun x hx => by obtain rfl := Option.some.inj hx; exact hc, .cons hop hsep ?_⟩
    rw [hend]
    exact .nil
  | @manyMore _ _ _ cs₁ cs₂ _ _ _ _ _ _ hfirst hgap _ _ _ _ _ ih =>
    obtain rfl := hk
    obtain rfl := Expr.many.inj hm
    obtain ⟨rfl, rfl⟩ := Prod.mk.inj (Option.some.inj ho)
    obtain ⟨⟨c, rest, rfl, hc⟩, hop⟩ := laterOperation_inv hfirst
    obtain ⟨p, rfl, -⟩ := operation_parse hop
    obtain rfl := afterSpace_of_gap hgap
    obtain ⟨hsep, hrest⟩ := ih (spaceless_afterSpace cs₁) hend rfl rfl rfl
    rw [nextOperation_afterSpace] at hrest
    exact ⟨fun x hx => by obtain rfl := Option.some.inj hx; exact hc, .cons hop hsep hrest⟩
  | _ => exact absurd hm (by simp)

theorem many_of_readsOperations {cs : List Char} {ps : List (Parse ScriptRule)}
    (hcs : AtSeparator cs) (h : ReadsOperations n (nextOperation cs) ps) :
    ∃ cs', Reads scriptGrammar n .spaced (.many laterOperation) cs (some (cs', ps)) ∧
      nextOperation cs' = [] := by
  have hnoOperation : Reads scriptGrammar n .spaced (.rule operation) [] none :=
    reads_nothing bounds_hold rfl rfl
  generalize hnext : nextOperation cs = next at h
  induction h generalizing cs with
  | nil =>
    refine ⟨cs, .manyNone ?_, hnext⟩
    cases cs with
    | nil => exact .noFirst (reads_noSeparators (by simp))
    | cons c cs => exact reads_laterOperation (hcs c rfl) cs (by rw [hnext]; exact hnoOperation)
  | @cons cs₀ cs₁ p ps hop hsep _ ih =>
    obtain ⟨cs', hmany, hend⟩ := ih hsep (nextOperation_afterSpace cs₁)
    cases cs with
    | nil =>
      rw [← hnext] at hop
      exact absurd (hop.unique hnoOperation) (by simp)
    | cons c cs =>
      have hfirst := reads_laterOperation (hcs c rfl) cs (hnext ▸ hop)
      rcases hfirst.manyGoesOn (reads_space cs₁) hmany with hmore | ⟨rfl, rfl, hlast⟩
      · exact ⟨cs', hmore, hend⟩
      · exact ⟨cs₁, hlast, by rw [← nextOperation_afterSpace, hend]⟩

/-- What a script stands for, behind its start. -/
theorem script_afterStart : (body script).afterStart =
    .seq (.seq (.seq (.seq (.text []) (.many separator))
      (.opt (.seq (.rule operation) (.many laterOperation)))) (.many separator))
      (.rule endOfText) := rfl

/-- A script without operations is read as such. -/
theorem operations_of_separators {cs cs' : List Char} {ps : List (Parse ScriptRule)}
    (h : Reads scriptGrammar n .spaced
      (.opt (.seq (.rule operation) (.many laterOperation))) (nextOperation cs) (some (cs', ps)))
    (hend : nextOperation cs' = []) : ReadsOperations n (nextOperation cs) ps := by
  cases h with
  | opt h =>
    cases h with
    | seq hop hgap hmany =>
      obtain ⟨p, rfl, -⟩ := operation_parse hop
      obtain rfl := afterSpace_of_gap hgap
      obtain ⟨hsep, hrest⟩ := readsOperations_of_many (spaceless_afterSpace _) hmany hend
      rw [nextOperation_afterSpace] at hrest
      exact .cons hop hsep hrest
  | noOpt h =>
    rw [nextOperation_idem] at hend
    rw [hend]
    exact .nil

theorem separators_inv {cs cs' : List Char} {ps : List (Parse ScriptRule)} (hcs : Spaceless cs)
    (h : Reads scriptGrammar n .spaced (.many separator) cs (some (cs', ps))) :
    afterSpace cs' = nextOperation cs ∧ ps = [] := by
  obtain ⟨last, hseps, hlast⟩ := reads_separators (n := n) _ (Nat.le_refl _) hcs
  obtain ⟨rfl, rfl⟩ := Prod.mk.inj (Option.some.inj (hseps.unique h))
  exact ⟨hlast, rfl⟩

theorem ReadsOperations.filter {cs : List Char} {ps : List (Parse ScriptRule)}
    (h : ReadsOperations n cs ps) : ps.filter (·.rule == operation) = ps := by
  refine List.filter_eq_self.mpr ?_
  induction h with
  | nil => exact fun p hp => absurd hp List.not_mem_nil
  | cons hop _ _ ih =>
    obtain ⟨p, hp, hrule⟩ := operation_parse hop
    obtain rfl := List.singleton_inj.mp hp
    exact List.forall_mem_cons.mpr ⟨by rw [hrule]; rfl, ih⟩

/-- **The operations of a text that is read as a script.** -/
theorem readsOperations_of_script {cs cs' : List Char} {parts : List (Parse ScriptRule)}
    (h : Reads scriptGrammar n .spaced (body script).afterStart cs (some (cs', parts))) :
    ReadsOperations n (nextOperation cs) (parts.filter (·.rule == operation)) := by
  rw [script_afterStart] at h
  cases h with
  | seq h hgap₄ hend =>
  cases h with
  | seq h hgap₃ hseps₂ =>
  cases h with
  | seq h hgap₂ hopt =>
  cases h with
  | seq htext hgap₁ hseps₁ =>
  cases htext with
  | text htext =>
  obtain rfl := htext
  obtain rfl := afterSpace_of_gap hgap₁
  obtain rfl := afterSpace_of_gap hgap₂
  obtain rfl := afterSpace_of_gap hgap₃
  obtain rfl := afterSpace_of_gap hgap₄
  obtain ⟨hfirst, rfl⟩ := separators_inv (spaceless_afterSpace _) hseps₁
  obtain ⟨hlast, rfl⟩ := separators_inv (spaceless_afterSpace _) hseps₂
  rw [nextOperation_afterSpace] at hfirst hlast
  rw [hlast] at hend
  rw [hfirst] at hopt
  cases hend with
  | rule hempty _ _ =>
    have hempty : Reads scriptGrammar n .spaced .textEnd _ (some (_, _)) := hempty
    generalize hnext : nextOperation _ = next at hempty
    cases hempty with
    | textEnd =>
      have hops := operations_of_separators hopt hnext
      -- the end of the text leaves a parse, the separators leave none
      rw [List.nil_append, List.nil_append, List.append_nil, List.filter_append, hops.filter]
      exact List.append_nil _ ▸ hops

/-- **A text that begins with operations is read as a script.** -/
theorem script_of_readsOperations {cs : List Char} {ps : List (Parse ScriptRule)}
    (h : ReadsOperations n (nextOperation cs) ps) :
    ∃ cs' parts, Reads scriptGrammar n .spaced (body script).afterStart cs (some (cs', parts)) ∧
      parts.filter (·.rule == operation) = ps := by
  obtain ⟨a₁, hseps₁, ha₁⟩ := reads_separators (n := n) _ (Nat.le_refl _) (spaceless_afterSpace cs)
  rw [nextOperation_afterSpace] at ha₁
  -- the operations, up to separators only
  have hopt : ∃ a₃, Reads scriptGrammar n .spaced
      (.opt (.seq (.rule operation) (.many laterOperation))) (nextOperation cs) (some (a₃, ps)) ∧
      nextOperation a₃ = [] := by
    generalize nextOperation cs = next at h
    cases h with
    | nil => exact ⟨[], .noOpt (.noFirst (reads_nothing bounds_hold rfl rfl)), rfl⟩
    | @cons _ cs₁ p ps hop hsep hrest =>
      rw [← nextOperation_afterSpace] at hrest
      obtain ⟨a₃, hmany, hend⟩ := many_of_readsOperations hsep hrest
      exact ⟨a₃, .opt (.seq hop (reads_space cs₁) hmany), hend⟩
  obtain ⟨a₃, hopt, hend⟩ := hopt
  obtain ⟨a₅, hseps₂, ha₅⟩ := reads_separators (n := n) _ (Nat.le_refl _) (spaceless_afterSpace a₃)
  rw [nextOperation_afterSpace, hend] at ha₅
  have hempty : ([] : List Char).length ≤ n := Nat.zero_le n
  obtain ⟨i, w, -, -, hlast⟩ := reads_rule (k := .spaced) (r := endOfText) (g := scriptGrammar)
    .textEnd hempty
  have hsecond := reads_space (n := n) a₁
  have hlastSpace := reads_space (n := n) a₅
  rw [ha₁] at hsecond
  rw [ha₅] at hlastSpace
  rw [script_afterStart]
  refine ⟨[], _, .seq (.seq (.seq (.seq (.text rfl) (reads_space cs) hseps₁) hsecond hopt)
    (reads_space a₃) hseps₂) hlastSpace hlast, ?_⟩
  rw [List.nil_append, List.nil_append, List.append_nil, List.filter_append, h.filter]
  exact List.append_nil _

/-- **A text is a script of the grammar exactly if it is read as operations**, which are then the
operations of the script. -/
theorem parse_script {cs : List Char} {ps : List (Parse ScriptRule)} :
    (∃ p, scriptGrammar.parse script cs = .ok p ∧ p.parts.filter (·.rule == operation) = ps) ↔
      ReadsOperations cs.length (nextOperation cs) ps := by
  have hparse : ∀ p, scriptGrammar.parse script cs = .ok p ↔ _ :=
    fun p => parse_eq_ok_iff bounds_hold rfl (by decide)
  constructor
  · rintro ⟨p, hp, rfl⟩
    obtain ⟨cs', parts, hscript, rfl⟩ := (hparse p).mp hp
    exact readsOperations_of_script hscript
  · intro h
    obtain ⟨cs', parts, hscript, hfilter⟩ := script_of_readsOperations h
    exact ⟨_, (hparse _).mpr ⟨cs', parts, hscript, rfl⟩, hfilter⟩

end Script

end Constituency
