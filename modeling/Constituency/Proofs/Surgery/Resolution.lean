import Constituency.Proofs.Surgery.References

/-!
# Which scripts a pattern admits

A script may refer to the names that the pattern captures, and each of its operations to those that
the earlier ones declare as well (`KnownAt`). Reading a script for a pattern tests nothing more than
that, and reports the first reference that fails (`Script.parseFor_iff_known`).
-/

namespace Constituency

open Grammar

/-- Whether a name may be referred to by an operation of a list: it is known before all of them, or
an earlier one declares it. -/
def KnownAt (known : List String) (os : List Operation) (i : Nat) (name : String) : Prop :=
  name ∈ known ∨ ∃ j < i, ∃ o, os[j]? = some o ∧ name ∈ o.declaredNames

/-- The first of the references of operations whose name may not be referred to. -/
structure FirstUnknown (known : List String) (os : List Operation) (refs : List (List Reference))
    (i : Nat) (r : Reference) : Prop where
  unknown : ¬ KnownAt known os i r.name
  before : ∃ first rest, refs[i]? = some (first ++ r :: rest) ∧
    ∀ x ∈ first, KnownAt known os i x.name
  earlier : ∀ j < i, ∀ rs, refs[j]? = some rs → ∀ x ∈ rs, KnownAt known os j x.name

section known

variable {known : List String} {o : Operation} {os : List Operation} {i : Nat} {name : String}
  {rs : List Reference} {refs : List (List Reference)} {r : Reference}

theorem knownAt_zero : KnownAt known os 0 name ↔ name ∈ known := by
  refine ⟨fun h => ?_, .inl⟩
  rcases h with h | ⟨j, hj, _⟩
  · exact h
  · exact absurd hj (Nat.not_lt_zero j)

theorem knownAt_succ :
    KnownAt known (o :: os) (i + 1) name ↔ KnownAt (known ++ o.declaredNames) os i name := by
  unfold KnownAt
  rw [List.mem_append, or_assoc]
  refine or_congr_right ⟨?_, ?_⟩
  · rintro ⟨j, hj, o', ho', hname⟩
    cases j with
    | zero => exact .inl (Option.some.inj ho' ▸ hname)
    | succ j => exact .inr ⟨j, Nat.lt_of_succ_lt_succ hj, o', ho', hname⟩
  · rintro (hname | ⟨j, hj, o', ho', hname⟩)
    · exact ⟨0, Nat.succ_pos i, o, rfl, hname⟩
    · exact ⟨j + 1, Nat.succ_lt_succ hj, o', ho', hname⟩

theorem FirstUnknown.succ (h : FirstUnknown (known ++ o.declaredNames) os refs i r)
    (hfirst : ∀ x ∈ rs, x.name ∈ known) : FirstUnknown known (o :: os) (rs :: refs) (i + 1) r := by
  obtain ⟨hunknown, ⟨first, rest, hsplit, hbefore⟩, hearlier⟩ := h
  refine ⟨fun hr => hunknown (knownAt_succ.mp hr),
    ⟨first, rest, hsplit, fun x hx => knownAt_succ.mpr (hbefore x hx)⟩,
    fun j hj rs' hrs' x hx => ?_⟩
  cases j with
  | zero =>
    obtain rfl := Option.some.inj hrs'
    exact knownAt_zero.mpr (hfirst x hx)
  | succ j => exact knownAt_succ.mpr (hearlier j (Nat.lt_of_succ_lt_succ hj) rs' hrs' x hx)

/-- An unknown reference is one of an operation. -/
theorem FirstUnknown.not_known (h : FirstUnknown known os refs i r)
    (hnames : refs.map (List.map Reference.name) = os.map Operation.referredNames) :
    ∃ o, os[i]? = some o ∧ r.name ∈ o.referredNames ∧ ¬ KnownAt known os i r.name := by
  obtain ⟨first, rest, hsplit, -⟩ := h.before
  have hi := congrArg (fun l => l[i]?) hnames
  rw [List.getElem?_map, List.getElem?_map, hsplit, Option.map_some] at hi
  obtain ⟨o, ho, hnames⟩ := Option.map_eq_some_iff.mp hi.symm
  refine ⟨o, ho, ?_, h.unknown⟩
  rw [hnames]
  exact List.mem_map_of_mem (List.mem_append_right _ (List.mem_cons_self ..))

end known

namespace ScriptReader

open ScriptRule

/-- What `Checked` says, for operations each of which knows what those before it declare. -/
inductive AllChecked (known : List String) (refs : List (List Reference)) :
    Except ScriptError (List Operation) → Except ScriptError (List Operation) → Prop where
  | error (e e' : ScriptError) : AllChecked known refs (.error e) (.error e')
  | ok {os : List Operation} :
      refs.map (List.map Reference.name) = os.map Operation.referredNames →
      (∀ i rs, refs[i]? = some rs → ∀ r ∈ rs, KnownAt known os i r.name) →
      AllChecked known refs (.ok os) (.ok os)
  | unknown {os : List Operation} {i : Nat} {r : Reference} :
      refs.map (List.map Reference.name) = os.map Operation.referredNames →
      FirstUnknown known os refs i r →
      AllChecked known refs (.ok os) (.error (.unresolved r.name r.position))

theorem knows_eq_true {text : List Char} {known : List String} {name : String} :
    Source.knows ⟨text, some known⟩ name = true ↔ name ∈ known :=
  List.contains_iff_mem

/-- **Operations are read for a pattern as they are without one**, up to the first reference that is
not known. -/
theorem readOperations_checked (text : List Char) {ps : List Part}
    (h : ∀ p ∈ ps, p.rule = operation ∧ p.Spelled scriptGrammar) (known : List String) :
    AllChecked known (ps.map (references text)) (readOperations ⟨text, none⟩ ps)
      (readOperations ⟨text, some known⟩ ps) := by
  induction ps generalizing known with
  | nil => exact .ok rfl fun i rs hrs => absurd hrs (by simp)
  | cons p ps ih =>
    obtain ⟨⟨hrule, hspelled⟩, hps⟩ := List.forall_mem_cons.mp h
    have hfirst := readOperation_checked ⟨text, some known⟩ hspelled hrule
    unfold readOperations
    rw [List.map_cons]
    generalize readOperation ⟨text, none⟩ p = x at hfirst
    generalize readOperation ⟨text, some known⟩ p = x' at hfirst
    cases hfirst with
    | error e e' => exact .error e e'
    | @ok o hnames hknown =>
      have hrest := ih hps (known ++ o.declaredNames)
      show AllChecked known _ (readOperations ⟨text, none⟩ ps >>= _)
        (readOperations ⟨text, some (known ++ o.declaredNames)⟩ ps >>= _)
      generalize readOperations ⟨text, none⟩ ps = y at hrest
      generalize readOperations ⟨text, some (known ++ o.declaredNames)⟩ ps = y' at hrest
      have hmem : ∀ r ∈ references text p, r.name ∈ known := fun r hr =>
        knows_eq_true.mp (hknown r hr)
      cases hrest with
      | error e e' => exact .error e e'
      | ok hall hrest =>
        refine .ok (by rw [List.map_cons, List.map_cons, hall, hnames, List.nil_append]) ?_
        intro i rs hrs r hr
        cases i with
        | zero =>
          obtain rfl := Option.some.inj hrs
          exact knownAt_zero.mpr (hmem r hr)
        | succ i => exact knownAt_succ.mpr (hrest i rs hrs r hr)
      | unknown hall hfirst =>
        exact .unknown (by rw [List.map_cons, List.map_cons, hall, hnames, List.nil_append])
          (hfirst.succ hmem)
    | @unknown o first rest r hnames hsplit hbefore hr =>
      have hrest := ih hps (known ++ o.declaredNames)
      show AllChecked known _ (readOperations ⟨text, none⟩ ps >>= _) _
      generalize readOperations ⟨text, none⟩ ps = y at hrest
      generalize readOperations ⟨text, some (known ++ o.declaredNames)⟩ ps = y' at hrest
      have hthis : ∀ os, FirstUnknown known (o :: os)
          (references text p :: ps.map (references text)) 0 r := by
        intro os
        refine ⟨fun hknown => ?_, ⟨first, rest, congrArg some hsplit, fun x hx => ?_⟩,
          fun j hj => absurd hj (Nat.not_lt_zero j)⟩
        · have hknows := hr.symm.trans (knows_eq_true.mpr (knownAt_zero.mp hknown))
          exact absurd hknows (by simp)
        · exact knownAt_zero.mpr (knows_eq_true.mp (hbefore x hx))
      cases hrest with
      | error e e' => exact .error e _
      | ok hall _ | unknown hall _ =>
        exact .unknown (by rw [List.map_cons, List.map_cons, hall, hnames, List.nil_append])
          (hthis _)

end ScriptReader

namespace Script

open ScriptReader ScriptRule

/-- What a script refers to, operation by operation. -/
def references (source : String) : List (List Reference) :=
  match scriptGrammar.parse .script source.toList with
  | .ok p => (p.parts.filter (·.rule == .operation)).map (ScriptReader.references source.toList)
  | .error _ => []

/-- The parts of a script have their shape, and stand in order. -/
theorem parts_of_parse {cs : List Char} {p : Part} (h : scriptGrammar.parse .script cs = .ok p) :
    (∀ q ∈ p.parts, q.Spelled scriptGrammar) ∧ ∃ hi, Parse.AllInOrder 0 p.parts hi := by
  obtain ⟨rest, ps, hreads, rfl⟩ := (parse_eq_ok_iff bounds_hold rfl (by decide)).mp h
  obtain ⟨hi, -, hordered⟩ := hreads.inOrder (Nat.zero_add _) _ rfl
  exact ⟨(hreads.spells (by decide) _ rfl).2, hi, hordered⟩

/-- The references of a script stand in the order of its text. -/
theorem references_sorted (source : String) :
    (references source).flatten.Pairwise fun r r' => r.position ≤ r'.position := by
  unfold references
  split
  · rename_i p hp
    obtain ⟨-, hi, hordered⟩ := parts_of_parse hp
    have hspread : Spread source.toList 0 hi (referencesAll source.toList
        (p.parts.filter (·.rule == .operation))) :=
      spread_referencesAll _ _ _ (hordered.filter _)
    rw [referencesAll_eq] at hspread
    exact hspread.sorted
  · exact .nil

theorem operations_checked (source : String) (known : List String) :
    AllChecked known (references source) (ScriptReader.operations source.toList none)
      (ScriptReader.operations source.toList (some known)) := by
  unfold ScriptReader.operations references
  cases hp : scriptGrammar.parse .script source.toList with
  | error f => exact .error _ _
  | ok p =>
    obtain ⟨hspelled, -⟩ := parts_of_parse hp
    refine readOperations_checked source.toList (fun q hq => ?_) known
    rw [List.mem_filter, beq_iff_eq] at hq
    exact ⟨hq.2, hspelled q hq.1⟩

/-- The references of an operation have the names that it refers to. -/
theorem exists_references {refs : List (List Reference)} {os : List Operation}
    (h : refs.map (List.map Reference.name) = os.map Operation.referredNames) {i : Nat}
    {o : Operation} (ho : os[i]? = some o) :
    ∃ rs, refs[i]? = some rs ∧ rs.map Reference.name = o.referredNames := by
  have hi := congrArg (fun l => l[i]?) h
  rw [List.getElem?_map, List.getElem?_map, ho, Option.map_some] at hi
  exact Option.map_eq_some_iff.mp hi

/-- **A script is read for a pattern exactly if it refers to known names only**, and then it has the
operations that it has without one. Otherwise the first unknown reference is reported, where the
references are those of the operations, in the order of the text. -/
theorem parseFor_iff_known (p : Pattern) (text : String) :
    ((∃ s, parseFor p text = .ok s) ↔ ∃ s, parse text = .ok s ∧
      ∀ i o, s.operations[i]? = some o → ∀ name ∈ o.referredNames,
        KnownAt p.captureNames s.operations i name) ∧
    (∀ s s', parse text = .ok s → parseFor p text = .ok s' → s'.operations = s.operations) ∧
    (∀ s e, parse text = .ok s → parseFor p text = .error e →
      ∃ i r, FirstUnknown p.captureNames s.operations (references text) i r ∧
        e = .unresolved r.name r.position) ∧
    (∀ s, parse text = .ok s → (references text).map (List.map Reference.name) =
      s.operations.map Operation.referredNames) ∧
    (references text).flatten.Pairwise fun r r' => r.position ≤ r'.position := by
  have hchecked := operations_checked text p.captureNames
  have hsorted := references_sorted text
  unfold parseFor parse
  generalize ScriptReader.operations text.toList none = x at hchecked
  generalize ScriptReader.operations text.toList (some p.captureNames) = x' at hchecked
  cases hchecked with
  | error e e' =>
    have hno : ∀ s, ¬ (Except.error e : Except ScriptError Script) = .ok s :=
      fun s h => by simp at h
    refine ⟨iff_of_false ?_ ?_, fun s _ h => absurd h (hno s), fun s _ h => absurd h (hno s),
      fun s h => absurd h (hno s), hsorted⟩
    · rintro ⟨s, h⟩
      exact absurd (show (Except.error e' : Except ScriptError Script) = .ok s from h) (by simp)
    · rintro ⟨s, h, -⟩
      exact hno s h
  | @ok os hnames hknown =>
    refine ⟨iff_of_true ⟨_, rfl⟩ ⟨_, rfl, fun i o ho name hname => ?_⟩, fun s s' h h' => ?_,
      fun s e _ h => ?_, fun s h => ?_, hsorted⟩
    · obtain ⟨rs, hrs, hrsNames⟩ := exists_references hnames ho
      obtain ⟨r, hr, rfl⟩ := List.mem_map.mp (hrsNames ▸ hname)
      exact hknown i rs hrs r hr
    · obtain rfl := Except.ok.inj h
      obtain rfl := Except.ok.inj h'
      rfl
    · exact absurd (show (Except.ok _ : Except ScriptError Script) = .error e from h) (by simp)
    · obtain rfl := Except.ok.inj h
      exact hnames
  | @unknown os i r hnames hfirst =>
    refine ⟨iff_of_false ?_ ?_, fun s s' _ h => ?_, fun s e h h' => ⟨i, r, ?_, ?_⟩, fun s h => ?_,
      hsorted⟩
    · rintro ⟨s, h⟩
      exact absurd (show (Except.error _ : Except ScriptError Script) = .ok s from h) (by simp)
    · rintro ⟨s, h, hall⟩
      obtain rfl := Except.ok.inj h
      obtain ⟨o, ho, hname, hnot⟩ := hfirst.not_known hnames
      exact hnot (hall i o ho r.name hname)
    · exact absurd (show (Except.error _ : Except ScriptError Script) = .ok s' from h) (by simp)
    · obtain rfl := Except.ok.inj h
      exact hfirst
    · exact (Except.error.inj h').symm
    · obtain rfl := Except.ok.inj h
      exact hnames

example : references "if exists a delete b; move c $+ d" =
    [[⟨"a", 10⟩, ⟨"b", 19⟩], [⟨"c", 27⟩, ⟨"d", 32⟩]] := by decide +kernel

end Script

end Constituency
