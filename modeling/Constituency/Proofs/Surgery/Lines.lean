import Constituency.Proofs.Surgery.Labels
import Constituency.Proofs.Surgery.Separators

/-!
# Operations before a further line

An operation that is followed by a separator, or by nothing, stays as it is if a further line is put
behind the text (`Script.keeps_operation`), provided that it has no open label. What can go on is
what is repeated, such as the names of a deletion and the operands of a replacement, and that ends
where a separator follows; templates and labels have ends of their own.
-/

namespace Constituency

open Grammar ScriptRule

namespace Grammar.Parse

variable {R : Type}

mutual

/-- Whether something is true of a parse or of a part of it. -/
def any (f : Parse R → Bool) : Parse R → Bool
  | node r i cs ps => f (node r i cs ps) || anyOf f ps

/-- Whether something is true of one of several parses or of a part of one. -/
def anyOf (f : Parse R → Bool) : List (Parse R) → Bool
  | [] => false
  | p :: ps => p.any f || anyOf f ps

end

theorem anyOf_eq (f : Parse R → Bool) (ps : List (Parse R)) : anyOf f ps = ps.any (any f) := by
  induction ps with
  | nil => rfl
  | cons p ps ih => rw [anyOf, ih, List.any_cons]

theorem any_self {f : Parse R → Bool} {p : Parse R} (h : p.any f = false) : f p = false := by
  obtain ⟨r, i, cs, ps⟩ := p
  rw [any, Bool.or_eq_false_iff] at h
  exact h.1

theorem any_part {f : Parse R → Bool} {p q : Parse R} (h : p.any f = false) (hq : q ∈ p.parts) :
    q.any f = false := by
  obtain ⟨r, i, cs, ps⟩ := p
  rw [any, Bool.or_eq_false_iff, anyOf_eq] at h
  exact Bool.eq_false_iff.mpr (List.any_eq_false.mp h.2 q hq)

end Grammar.Parse

namespace Script

variable {n : Nat} {s z : List Char}

/-- What is asked of an operation, so that it is not affected by a further line: it is followed by a
separator or by nothing, and it has no open label. -/
structure Settled (s : List Char) (v : List Char) (ps : List (Parse ScriptRule)) : Prop where
  ended : AtSeparator (afterSpace v)
  closed : ∀ p ∈ ps, p.any (isOpenLabel s) = false

theorem Settled.of_append {v : List Char} {ps rs : List (Parse ScriptRule)}
    (h : Settled s v (ps ++ rs)) : Settled s v rs :=
  ⟨h.ended, fun p hp => h.closed p (List.mem_append_right _ hp)⟩

theorem Settled.of_node {v w : List Char} {r : ScriptRule} {i : Nat}
    {ps : List (Parse ScriptRule)} (h : Settled s v [.node r i w ps]) : Settled s v ps :=
  ⟨h.ended, fun _ hp => Parse.any_part (h.closed _ (List.mem_singleton_self _)) hp⟩

/-! ## Single operations -/

section operations

variable (s) (hz : z.head? = some '\n')

include hz

theorem keeps_operand : Keeps scriptGrammar s z .spaced (.rule operand) fun _ _ => True := by
  refine Keeps.rule (q := fun _ _ => True) ?_ fun _ _ _ _ h => h
  intro v v' ps hv h _
  have h : Reads scriptGrammar s.length .spaced (.alt (.rule template) (.rule name)) v
      (some (v', ps)) := h
  cases h with
  | altLeft htemplate =>
    exact .altLeft (keeps_template s z .spaced (p := fun _ _ => True) _ _ _ hv htemplate trivial)
  | altRight _ hname =>
    -- a name begins with no parenthesis
    have hhead : (v ++ z).head? ≠ some '(' := by
      cases hname with
      | rule hbody _ _ =>
        obtain ⟨y, hy⟩ := hbody.front
        cases hy with
        | char hc =>
          intro hparen
          obtain rfl := Option.some.inj hparen
          exact absurd hc (by decide)
    exact .altRight (reads_noTemplate hhead) (hname.further steady hz rfl)

omit hz in
theorem reads_noOperand {v : List Char} (hv : ∀ c ∈ v.head?, c ≠ '(' ∧ Text.isNameChar c = false) :
    Reads scriptGrammar n .spaced (.rule operand) v none := by
  refine .noRule (.altRight (reads_noTemplate fun h => (hv _ h).1 rfl) (.noRule (.noFirst ?_)))
  exact .noChar fun c hc => (hv c hc).2

omit hz in
theorem isSeparator_noOperand {c : Char} (h : isSeparator c = true) :
    c ≠ '(' ∧ Text.isNameChar c = false := by
  simp only [isSeparator, isLineEnd, Bool.or_eq_true, beq_iff_eq] at h
  rcases h with (rfl | rfl) | rfl <;> decide

/-- Where an operation ends there is no further operand. -/
theorem noOperand_further {v : List Char} (h : AtSeparator (afterSpace v)) :
    ∀ c ∈ (v ++ z).head?, c ≠ '(' ∧ Text.isNameChar c = false := by
  intro c hc
  cases v with
  | nil =>
    obtain rfl := Option.some.inj (hz.symm.trans hc)
    decide
  | cons d v =>
    obtain rfl := Option.some.inj hc
    by_cases hspace : isBlank d = false ∧ d ≠ '%'
    · have hhere : afterSpace (d :: v) = d :: v :=
        afterSpace_of_spaceless fun x hx => by obtain rfl := Option.some.inj hx; exact hspace
      rw [hhere] at h
      exact isSeparator_noOperand (h d rfl)
    · have hblank : d = ' ' ∨ d = '\t' ∨ d = '%' := by
        simp only [isBlank, Bool.or_eq_false_iff, beq_eq_false_iff_ne] at hspace
        by_cases h₁ : d = ' '
        · exact .inl h₁
        · by_cases h₂ : d = '\t'
          · exact .inr (.inl h₂)
          · exact .inr (.inr (Decidable.byContradiction fun h₃ => hspace ⟨⟨h₁, h₂⟩, h₃⟩))
      rcases hblank with rfl | rfl | rfl <;> decide

theorem keeps_operands : Keeps scriptGrammar s z .spaced (.many (.rule operand)) (Settled s) := by
  refine (keeps_operand s hz).many steady hz (fun _ _ _ h => h.of_append) fun v₁ v₂ ps h hv₂ => ?_
  refine reads_noOperand (noOperand_further hz ?_)
  rcases hv₂ with rfl | ⟨qs, hgap⟩
  · exact h.ended
  · obtain ⟨rfl, -⟩ := Prod.mk.inj (Option.some.inj ((reads_space v₁).unique hgap))
    rw [afterSpace_of_spaceless (spaceless_afterSpace v₁)]
    exact h.ended

/-- **An operation without a guard stays as it is if a line follows.** -/
theorem keeps_edit {r : ScriptRule} (hr : r ∈ operationRules) (hguard : r ≠ ifExists) :
    Keeps scriptGrammar s z .spaced (.rule r) (Settled s) := by
  have hsteady : ∀ {e : Expr ScriptRule} {p}, e.steady '\n' isSteady .spaced = true →
      Keeps scriptGrammar s z .spaced e p := fun he => keeps_of_steady steady hz he
  have htemplate : Keeps scriptGrammar s z .spaced (.rule template) fun _ _ => True :=
    keeps_template s z .spaced
  have hoperand := keeps_operand s hz
  -- the rule of an operation leaves its parse, of which its parts are parts
  have hnode : Keeps scriptGrammar s z .spaced (body r) (Settled s) →
      Keeps scriptGrammar s z .spaced (.rule r) (Settled s) := by
    intro hbody
    have hkind : scriptGrammar.kind r = .spaced := kind_of_operation hr
    refine Keeps.rule (q := Settled s) ?_ fun v' i w ps h => ?_
    · rw [hkind]
      exact hbody
    · rw [trace, hkind] at h
      exact h.of_node
  cases r with
  | ifExists => exact absurd rfl hguard
  | delete | prune | excise | move | coindex => exact hsteady rfl
  | relabel =>
    have hlabel : Keeps scriptGrammar s z .spaced (.rule newLabel) (Settled s) :=
      (keeps_newLabel hz).mono fun v' ps h p hp q hq =>
        Parse.any_self (Parse.any_part (h.closed p hp) hq)
    exact hnode ((hsteady rfl).andThen steady hz hlabel fun _ _ _ h => h.of_append)
  | insert =>
    have hfront := (hsteady (e := .rule insertWord) rfl).andThen steady hz hoperand
      fun _ _ _ h => h
    exact hnode (hfront.andThen steady hz (hsteady rfl) fun _ _ _ h => h.of_append)
  | replace =>
    have hfront : Keeps scriptGrammar s z .spaced (.rule replaceWord ++ .rule name)
        fun _ _ => True :=
      hsteady rfl
    have hall := hoperand.andThen steady hz (keeps_operands s hz) fun _ _ _ h => h.of_append
    exact hnode (hfront.andThen steady hz hall fun _ _ _ h => h.of_append)
  | adjoin =>
    have hfront := (hsteady (e := .rule adjoinWord) rfl).andThen steady hz htemplate
      fun _ _ _ h => h
    exact hnode (hfront.andThen steady hz (hsteady rfl) fun _ _ _ h => h.of_append)
  | createSubtree =>
    have hfront := (hsteady (e := .rule createSubtreeWord) rfl).andThen steady hz
      htemplate fun _ _ _ h => h
    have hname := hfront.andThen steady hz (hsteady (e := .rule name) (p := fun _ _ => True)
      rfl) fun _ _ _ h => h
    exact hnode (hname.andThen steady hz (hsteady rfl) fun _ _ _ h => h.of_append)
  | _ => exact absurd hr (by decide)

/-- A guard, up to the operation that it guards. -/
def guardFront : Expr ScriptRule :=
  .rule ifWord ++ .opt (.rule notWord) ++ .rule existsWord ++ .rule name

/-- **An operation stays as it is if a line follows.** -/
theorem keeps_operation : Keeps scriptGrammar s z .spaced (.rule operation) (Settled s) := by
  intro v
  induction hlength : v.length using Nat.strongRecOn generalizing v with
  | ind length ih =>
    intro v' ps hv h hasked
    cases h with
    | @rule _ _ i w _ _ qs hbody hw hi =>
      have hparts : Settled s v' qs := hasked.of_node
      have hchoice : Reads scriptGrammar s.length .spaced
          (.choice ifExists operationRules.tail) v (some (v', qs)) := hbody
      obtain ⟨r, hr, hrule⟩ := hchoice.choice
      obtain ⟨word, hword, hfirst⟩ := keyword_of_reads hr hrule
      have hfurther : Reads scriptGrammar (s.length + z.length) .spaced (.rule r) (v ++ z)
          (some (v' ++ z, qs)) := by
        by_cases hguard : r = ifExists
        · subst hguard
          cases hrule with
          | rule hguarded hw' hi' =>
            have hguarded : Reads scriptGrammar s.length .spaced (.seq guardFront (.rule operation))
              v (some (v', _)) := hguarded
            cases hguarded with
            | seq hfront hgap hop =>
              -- the operation behind the guard is read from less text
              have hshorter := hfront.takes bounds_hold rfl _ rfl
              have hv₂ := hgap.suffix_some.trans (hfront.suffix_some.trans hv)
              have hlast := ih _ (Nat.lt_of_le_of_lt hgap.length_le (hlength ▸ hshorter)) _ rfl v' _
                hv₂ hop hparts.of_node.of_append
              refine .rule (.seq (hfront.further steady hz rfl)
                (hgap.further steady hz (steady.gap _)) hlast) (by rw [hw', List.append_assoc]) ?_
              rw [List.length_append]
              omega
        · exact keeps_edit s hz hr hguard v v' qs hv hrule hparts
      refine .rule (i := i) (w := w) ?_ (by rw [hw, List.append_assoc])
        (by rw [List.length_append]; omega)
      show Reads scriptGrammar (s.length + z.length) .spaced
        (.choice ifExists operationRules.tail) (v ++ z) _
      refine reads_choice hr hfurther fun q hq hne =>
        reads_noKeyword hq fun word' hword' heq => hne ?_
      rw [firstWord_append v hz, hfirst] at heq
      exact eq_of_keyword q hq r hr word' hword' (String.toList_inj.mp heq ▸ hword)

end operations

end Script

end Constituency
