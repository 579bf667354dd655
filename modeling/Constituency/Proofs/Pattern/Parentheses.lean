import Constituency.Proofs.Pattern.Brackets

/-!
# Relations behind parentheses and in brackets

A text that is a node by itself is a node of the same parts in parentheses, and further relations
may follow it there (`exists_reads_parenthesized`). A text that consists of relations is a term if
it is put in brackets (`IsWholeCondition.reads_bracketed`), and several such terms behind one target
are one conjunction (`exists_reads_conjoined`). The parts are those that are read of the shorter
texts, moved to where these stand now.
-/

namespace Constituency

open Grammar PatternRule

namespace PatternReader

variable {n : Nat} {cs u v w : List Char} {q r : Part}

/-! ## Texts that are parts of patterns -/

/-- Whether a text is a target and nothing else: a description, or a node in parentheses. -/
def isTarget (text : String) : Bool :=
  (patternGrammar.parse nodeExpr text.toList).toOption.any
    fun p => p.text == text.toList && p.parts.length == 1

/-- Whether a text consists of relations and nothing else. -/
def areRelations (text : String) : Bool :=
  (patternGrammar.parse disjunction text.toList).toOption.any fun p => p.text == text.toList

theorem reads_of_parse {rule : PatternRule} (hkind : patternGrammar.kind rule = .spaced)
    (hstart : (body rule).afterStart = body rule) (hbounded : (body rule).bounded bounds = true)
    (hdepth : (body rule).depth bounds ≤ bounds.limit) {p : Part}
    (h : patternGrammar.parse rule cs = .ok p) (htext : p.text = cs) :
    Reads patternGrammar cs.length .spaced (body rule) cs (some ([], p.parts)) := by
  obtain ⟨rest, ps, hreads, rfl⟩ := (parse_eq_ok_iff bounds_hold (hstart.symm ▸ hbounded)
    (hstart.symm ▸ hdepth)).mp h
  rw [hkind, show (patternGrammar.body rule).afterStart = body rule from hstart] at hreads
  have hrest : rest = [] := by
    have hlength := congrArg List.length htext
    have hle := hreads.length_le
    simp only [Parse.text, List.length_take] at hlength
    exact List.eq_nil_of_length_eq_zero (by omega)
  rw [← hrest]
  exact hreads

/-- A text that is read as a condition, as a whole. -/
structure IsWholeCondition (cs : List Char) (r : Part) : Prop where
  rule : r.rule = disjunction
  reads : Reads patternGrammar cs.length .spaced (.rule disjunction) cs (some ([], [r]))

/-- A text that is read as a node, as a whole. -/
def IsWholeNode (cs : List Char) (q : Part) : Prop :=
  Reads patternGrammar cs.length .spaced (.rule nodeExpr) cs (some ([], [q]))

theorem exists_isWholeCondition {text : String} (h : areRelations text = true) :
    ∃ r, IsWholeCondition text.toList r := by
  obtain ⟨p, hp, htext⟩ := exists_of_any h
  have hbody := reads_of_parse rfl rfl rfl (by decide) hp (by simpa using htext)
  obtain ⟨i, w, hrule⟩ := reads_part (k := .spaced) (r := disjunction) (by decide) hbody
    (Nat.le_refl _)
  exact ⟨_, rfl, hrule⟩

/-- A target leaves one part. -/
theorem exists_part_of_target {ps : List Part}
    (h : Reads patternGrammar n .spaced target cs (some (u, ps))) : ∃ q, ps = [q] := by
  cases h with
  | altLeft h =>
    cases h with
    | seq h _ hclosing =>
      cases h with
      | seq hopening _ hnode =>
        cases hopening
        cases hnode
        cases hclosing
        exact ⟨_, rfl⟩
  | altRight _ h =>
    cases h
    exact ⟨_, rfl⟩

theorem exists_reads_of_isTarget {text : String} (h : isTarget text = true) :
    ∃ u q, afterBlanks u = [] ∧ Reads patternGrammar text.toList.length .spaced target
      text.toList (some (u, [q])) := by
  obtain ⟨p, hp, hwhole⟩ := exists_of_any h
  obtain ⟨htext, hparts⟩ := Bool.and_eq_true_iff.mp hwhole
  have hbody := reads_of_parse rfl rfl rfl (by decide) hp (by simpa using htext)
  generalize p.parts = ps at hbody hparts
  cases hbody with
  | @seq _ _ _ _ u _ _ _ _ _ htarget hgap hlater =>
    obtain ⟨rfl, -⟩ := Prod.mk.inj (Option.some.inj ((reads_blanks _).unique hgap))
    obtain ⟨q, rfl⟩ := exists_part_of_target htarget
    rcases hlater.opt_cases with ⟨hrest, rfl⟩ | hrelations
    · exact ⟨u, q, hrest.symm, htarget⟩
    · cases hrelations
      exact absurd (show (2 == 1) = true from hparts) (by decide)

/-! ## Parts of longer texts -/

/-- What is read of a text is read in the same way behind other text. -/
theorem exists_moved {e : Expr PatternRule} {m : Nat} (hbounded : e.bounded bounds = true)
    (h : Reads patternGrammar m .spaced e cs (some (u, [q]))) (hcs : cs.length ≤ m) (hm : m ≤ n) :
    ∃ d, Reads patternGrammar n .spaced e cs (some (u, [q.moved d])) := by
  obtain ⟨d, rfl⟩ := Nat.exists_eq_add_of_le hm
  exact ⟨d, h.behind bounds_hold hbounded hcs d⟩

/-- Relations are read in front of a closing bracket. -/
theorem IsWholeCondition.reads_before {c : Char} (hc : c = ')' ∨ c = ']')
    (h : IsWholeCondition cs r) (hn : (cs ++ c :: w).length ≤ n) :
    ∃ d, Reads patternGrammar n .spaced (.rule disjunction) (cs ++ c :: w)
      (some (c :: w, [r.moved d])) :=
  exists_moved rfl (reads_disjunction_before hc w h.reads) (by simp) (by simpa using hn)

/-- They are read at the end of a text. -/
theorem IsWholeCondition.reads_last (h : IsWholeCondition cs r) (hn : cs.length ≤ n) :
    ∃ d, Reads patternGrammar n .spaced (.rule disjunction) cs (some ([], [r.moved d])) :=
  exists_moved rfl h.reads (Nat.le_refl _) hn

/-- A node is read in front of a closing parenthesis. -/
theorem IsWholeNode.reads_before (h : IsWholeNode cs q) (hn : (cs ++ ')' :: w).length ≤ n) :
    ∃ d, Reads patternGrammar n .spaced (.rule nodeExpr) (cs ++ ')' :: w)
      (some (')' :: w, [q.moved d])) :=
  exists_moved rfl (reads_nodeExpr_before w h) (by simp) (by simpa using hn)

theorem afterBlanks_of_relations {x : List Char × List Part}
    (h : Reads patternGrammar n .spaced (.rule disjunction) cs (some x)) : afterBlanks cs = cs := by
  obtain ⟨c, hc, hhead⟩ := mem_openings_of_disjunction h
  have hall : (openings.all fun c => !blanks.contains c) = true := rfl
  exact afterBlanks_of_head? hhead (by simpa using List.all_eq_true.mp hall c hc)

theorem afterBlanks_of_nodeExpr {x : List Char × List Part}
    (h : Reads patternGrammar n .spaced (.rule nodeExpr) cs (some x)) : afterBlanks cs = cs := by
  cases h with
  | rule h _ _ =>
    cases h with
    | seq htarget _ _ => exact afterBlanks_of_target htarget

/-- **A target with relations behind it is a node.** -/
theorem exists_reads_related
    (htarget : Reads patternGrammar n .spaced target cs (some (u, [q]))) (hu : afterBlanks u = v)
    (h : Reads patternGrammar n .spaced (.rule disjunction) v (some ([], [r])))
    (hn : cs.length ≤ n) :
    ∃ i w, Reads patternGrammar n .spaced (.rule nodeExpr) cs
      (some ([], [.node nodeExpr i w [q, r]])) :=
  reads_part (k := .spaced) (r := nodeExpr) (by decide) (reads_spaced htarget hu (.opt h)) hn

/-! ## Relations behind parentheses -/

/-- **A node in parentheses with further relations behind it.** -/
theorem exists_reads_parenthesized {text : List Char}
    (htext : text = '(' :: (cs ++ ')' :: ' ' :: v))
    (h : IsWholeNode cs q) (hv : IsWholeCondition v r) :
    ∃ i w d e, IsWholeNode text (.node nodeExpr i w [q.moved d, r.moved e]) := by
  have hlength : (cs ++ ')' :: ' ' :: v).length ≤ text.length := by
    rw [htext, List.length_cons]
    omega
  obtain ⟨d, hnode⟩ := h.reads_before hlength
  obtain ⟨e, hlater⟩ := hv.reads_last (length_later (w := [' ']) (length_later (w := cs ++ [')'])
    (by simpa using hlength)))
  have hblank : afterBlanks (' ' :: v) = afterBlanks v := rfl
  have htarget : Reads patternGrammar text.length .spaced target text
      (some (' ' :: v, [q.moved d])) := by
    rw [htext] at hnode ⊢
    exact .altLeft (reads_spaced (reads_spaced (.text rfl) (afterBlanks_of_nodeExpr hnode) hnode)
      rfl (.text rfl))
  obtain ⟨i, w, hread⟩ :=
    exists_reads_related htarget (hblank.trans (afterBlanks_of_relations hlater)) hlater
      (Nat.le_refl _)
  exact ⟨i, w, d, e, hread⟩

/-! ## Relations in brackets -/

/-- A part for a condition in brackets, wherever it starts. -/
structure IsBracketed (r t : Part) : Prop where
  rule : r.rule = disjunction
  term : ∃ i w d, t = .node term i w [r.moved d]

/-- Relations are read in brackets, whatever follows. -/
theorem IsWholeCondition.reads_bracketed (h : IsWholeCondition cs r)
    (hn : ('[' :: (cs ++ ']' :: w)).length ≤ n) :
    ∃ t, Reads patternGrammar n .spaced (.rule term) ('[' :: (cs ++ ']' :: w)) (some (w, [t])) ∧
      IsBracketed r t := by
  obtain ⟨d, hinside⟩ := h.reads_before (.inr rfl) (Nat.le_of_succ_le hn)
  have hbrackets : Reads patternGrammar n .spaced (.lit "[" ++ .rule disjunction ++ .lit "]")
      ('[' :: (cs ++ ']' :: w)) (some (w, [r.moved d])) :=
    reads_spaced (reads_spaced (.text rfl) (afterBlanks_of_relations hinside) hinside) rfl
      (.text rfl)
  have hbody : Reads patternGrammar n .spaced (body term) ('[' :: (cs ++ ']' :: w))
      (some (w, [r.moved d])) :=
    .altLeft (.altRight (.altRight
      (.noFirst (.noRule (reads_noText (c := '!') (by simp))))
      (.noFirst (.noRule (reads_noText (c := '?') (by simp))))) hbrackets)
  obtain ⟨i, v, hterm⟩ := reads_part (k := .spaced) (r := term) (by decide) hbody hn
  exact ⟨_, hterm, h.rule, i, v, d, rfl⟩

/-- Conditions in brackets, each behind `&`. -/
def bracketedBehind (conditions : List (List Char)) : List Char :=
  conditions.flatMap fun cs => ' ' :: '&' :: ' ' :: '[' :: (cs ++ [']'])

theorem bracketedBehind_cons (cs : List Char) (conditions : List (List Char)) :
    bracketedBehind (cs :: conditions) =
      ' ' :: '&' :: ' ' :: '[' :: (cs ++ ']' :: bracketedBehind conditions) := by
  rw [bracketedBehind, List.flatMap_cons]
  simp only [List.cons_append, List.append_assoc, List.nil_append]
  rfl

/-- **Conditions in brackets are read one by one.** -/
theorem exists_reads_behind {conditions : List (List Char)} {rs : List Part}
    (h : List.Forall₂ IsWholeCondition conditions rs)
    (hn : (bracketedBehind conditions).length ≤ n) :
    ∃ ts, Reads patternGrammar n .spaced (.many nextTerm)
      (afterBlanks (bracketedBehind conditions)) (some ([], ts)) ∧
      List.Forall₂ IsBracketed rs ts := by
  induction h with
  | nil =>
    exact ⟨[], .manyNone (reads_nothing bounds_hold rfl rfl), .nil⟩
  | @cons cs r conditions rs hcs _ ih =>
    rw [bracketedBehind_cons] at hn ⊢
    have hmarked : afterBlanks (' ' :: '&' :: ' ' :: '[' :: (cs ++ ']' ::
        bracketedBehind conditions)) = '&' :: ' ' :: '[' :: (cs ++ ']' ::
        bracketedBehind conditions) := rfl
    have hlater : ('[' :: (cs ++ ']' :: bracketedBehind conditions)).length ≤ n :=
      length_later (w := [' ', '&', ' ']) hn
    obtain ⟨t, hterm, ht⟩ := hcs.reads_bracketed hlater
    obtain ⟨ts, hmany, hts⟩ := ih (by
      simp only [List.length_cons, List.length_append] at hlater
      omega)
    have hfirst : Reads patternGrammar n .spaced nextTerm
        ('&' :: ' ' :: '[' :: (cs ++ ']' :: bracketedBehind conditions))
        (some (bracketedBehind conditions, [t])) :=
      reads_spaced (.opt (.text rfl)) rfl hterm
    rw [hmarked]
    rcases hfirst.manyGoesOn (reads_blanks _) hmany with hall | ⟨hend, rfl, hlast⟩
    · exact ⟨t :: ts, hall, .cons ht hts⟩
    -- the last of the conditions
    · cases conditions with
      | nil => exact ⟨[t], hlast, .cons ht hts⟩
      | cons cs conditions =>
        rw [bracketedBehind_cons] at hend
        exact absurd (congrArg List.head? hend) (by simp [afterBlanks, blanks])

/-- A target is read in front of a blank and relations. -/
theorem exists_reads_spaced {text : List Char} (htext : text = cs ++ ' ' :: v)
    (htarget : Reads patternGrammar cs.length .spaced target cs (some (u, [q])))
    (hu : afterBlanks u = []) (h : Reads patternGrammar text.length .spaced (.rule disjunction) v
      (some ([], [r]))) :
    ∃ i w, IsWholeNode text (.node nodeExpr i w [q, r]) := by
  have hends : EndsAlternatives u := .of_head fun hbar => by
    rw [afterBlanks_of_head? hbar (by decide)] at hu
    rw [hu] at hbar
    exact absurd hbar (by simp)
  have hapart : SetsApart (' ' :: v) := ⟨' ', List.mem_cons_self .., rfl⟩
  have hfront := reads_target_before hapart hends htarget
  rw [← List.length_append, ← htext] at hfront
  refine exists_reads_related hfront ?_ h (Nat.le_refl _)
  rw [afterBlanks, List.dropWhile_append, if_pos (by simpa [afterBlanks] using hu)]
  exact afterBlanks_of_relations h

/-- **A target with conditions in brackets behind it.** -/
theorem exists_reads_conjoined {text : List Char} {conditions : List (List Char)} {rs : List Part}
    (htext : text = cs ++ ' ' :: '[' :: (v ++ ']' :: bracketedBehind conditions))
    (htarget : Reads patternGrammar cs.length .spaced target cs (some (u, [q])))
    (hu : afterBlanks u = []) (hr : IsWholeCondition v r)
    (hrs : List.Forall₂ IsWholeCondition conditions rs) :
    ∃ i j l x y z ts, List.Forall₂ IsBracketed (r :: rs) ts ∧
      IsWholeNode text
        (.node nodeExpr i x [q, .node disjunction j y [.node conjunction l z ts]]) := by
  have hlength : ('[' :: (v ++ ']' :: bracketedBehind conditions)).length ≤ text.length :=
    length_later (w := [' ']) (length_later (w := cs) (by rw [htext]; exact Nat.le_refl _))
  obtain ⟨t, hterm, ht⟩ := hr.reads_bracketed hlength
  obtain ⟨ts, hmany, hts⟩ := exists_reads_behind (n := text.length) hrs (by
    simp only [List.length_cons, List.length_append] at hlength
    omega)
  have hbody : Reads patternGrammar text.length .spaced (body conjunction)
      ('[' :: (v ++ ']' :: bracketedBehind conditions)) (some ([], t :: ts)) :=
    reads_spaced hterm rfl hmany
  obtain ⟨l, z, hconjunction⟩ := reads_part (k := .spaced) (r := conjunction) (by decide) hbody
    hlength
  have hlast : Reads patternGrammar text.length .spaced (.lit "|" ++ .rule conjunction) [] none :=
    reads_nothing bounds_hold rfl rfl
  have hbody : Reads patternGrammar text.length .spaced (body disjunction)
      ('[' :: (v ++ ']' :: bracketedBehind conditions))
      (some ([], [.node conjunction l z (t :: ts)])) :=
    reads_spaced hconjunction rfl (.manyNone hlast)
  obtain ⟨j, y, hdisjunction⟩ := reads_part (k := .spaced) (r := disjunction) (by decide) hbody
    hlength
  obtain ⟨i, x, hnode⟩ := exists_reads_spaced htext htarget hu hdisjunction
  exact ⟨i, j, l, x, y, z, t :: ts, .cons ht hts, hnode⟩

end PatternReader

end Constituency
