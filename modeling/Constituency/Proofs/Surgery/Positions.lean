import Constituency.Proofs.Grammar.Reading
import Constituency.Proofs.Pattern.Captures
import Constituency.Surgery.Reader

/-!
# Where parts of a script start

Where a part starts, and what the whole text is, shows in errors only. A script that is read without
a pattern may refer to any name, and so what its parts stand for does not change if other text is
put before them (`ScriptReader.readOperations_moved`).
-/

namespace Constituency.ScriptReader

open Grammar ScriptRule

section readers

variable (t t' : List Char) (d : Nat) (p : Part)

/-- Where all names may be referred to there is no fault among them. -/
theorem checkNames_none (names : List String) : checkNames ⟨t, none⟩ p names = .ok () := by
  have hnone : names.find? (!Source.knows ⟨t, none⟩ ·) = none :=
    List.find?_eq_none.mpr fun name _ => by simp [Source.knows]
  rw [checkNames, hnone]

theorem reference_none : reference ⟨t, none⟩ p = .ok (String.ofList p.text) := by
  rw [reference, checkNames_none]
  rfl

theorem reference_moved : Agree (reference ⟨t, none⟩ p) (reference ⟨t', none⟩ (p.moved d)) := by
  rw [reference_none, reference_none, Parse.moved_text]
  exact .refl _

theorem readTemplate_moved (needsFoot : Bool) :
    Agree (readTemplate ⟨t, none⟩ needsFoot p) (readTemplate ⟨t', none⟩ needsFoot (p.moved d)) := by
  rw [readTemplate, readTemplate, Parse.moved_text]
  cases Template.parse p.text with
  | error f => exact agree_error _ _
  | ok template =>
    dsimp only
    rw [checkNames_none, checkNames_none]
    split
    · exact agree_error _ _
    · exact .refl _

theorem readOperand_moved :
    Agree (readOperand ⟨t, none⟩ p) (readOperand ⟨t', none⟩ (p.moved d)) := by
  unfold readOperand
  rw [Parse.moved_parts]
  rcases p.parts with _ | ⟨⟨r, i, cs, qs⟩, _ | ⟨q, ps⟩⟩
  · exact agree_error _ _
  · cases r with
    | template => exact (readTemplate_moved t t' d (.node template i cs qs) false).map
    | _ => exact (reference_moved t t' d _).map
  · cases r <;> exact agree_error _ _

theorem childPosition_moved :
    Agree (childPosition ⟨t, none⟩ p) (childPosition ⟨t', none⟩ (p.moved d)) := by
  rw [childPosition, childPosition, Parse.moved_text]
  split
  · split
    · exact agree_error _ _
    · split
      · exact agree_error _ _
      · exact .refl _
  · exact agree_error _ _

theorem readPlace_moved : Agree (readPlace ⟨t, none⟩ p) (readPlace ⟨t', none⟩ (p.moved d)) := by
  unfold readPlace
  rw [Parse.moved_parts]
  match p.parts with
  | [op, anchor] =>
    refine (reference_moved t t' d anchor).bind fun name => ?_
    rw [Parse.moved_text]
    split
    · exact .refl _
    · split
      · exact .refl _
      · exact (childPosition_moved t t' d op).bind fun i => .refl _
  | [] | [_] | _ :: _ :: _ :: _ => exact agree_error _ _

theorem readLabel_moved : Agree (readLabel ⟨t, none⟩ p) (readLabel ⟨t', none⟩ (p.moved d)) := by
  intro a h
  unfold readLabel at h ⊢
  rw [Parse.moved_parts]
  split at h
  · rename_i i cs body replacement hparts
    rw [hparts]
    cases hregex : Regex.compile? (String.ofList (Text.unslash body.text)) with
    | none =>
      rw [hregex] at h
      exact absurd h (by simp [Source.error])
    | some r =>
      cases hparsed : Replacement.parse replacement.text with
      | error f =>
        rw [hregex, hparsed] at h
        exact absurd h (by simp [Source.error])
      | ok parts =>
        rw [hregex, hparsed] at h
        dsimp only at h
        rw [checkNames_none] at h
        simp only [List.map_cons, List.map_nil, Parse.moved, Parse.movedAll, Parse.moved_text,
          hregex, hparsed, checkNames_none]
        exact h
  · rename_i i cs body hparts
    rw [hparts]
    rw [← Parse.moved_text d body] at h
    exact h
  · rename_i i cs qs hparts
    rw [hparts]
    exact h
  · exact absurd h (by simp [Source.incomplete])

theorem readEdit_moved : Agree (readEdit ⟨t, none⟩ p) (readEdit ⟨t', none⟩ (p.moved d)) := by
  have hname := reference_moved t t' d
  have htemplate := fun q => readTemplate_moved t t' d q true
  intro o h
  unfold readEdit at h ⊢
  rw [Parse.moved_rule, Parse.moved_parts]
  split at h
  case h_12 => exact absurd h (by simp [Source.incomplete])
  all_goals
    rename_i hrule hparts
    rw [hrule, hparts]
    revert o
  case h_1 | h_2 | h_3 => exact (Agree.mapM hname _).map
  case h_4 top bottom =>
    exact (hname top).bind fun _ => (hname bottom).bind fun _ => .refl _
  case h_5 name label =>
    exact (hname name).bind fun _ => (readLabel_moved t t' d label).bind fun _ => .refl _
  case h_6 operand place =>
    exact (readOperand_moved t t' d operand).bind fun _ =>
      (readPlace_moved t t' d place).bind fun _ => .refl _
  case h_7 name place =>
    exact (hname name).bind fun _ => (readPlace_moved t t' d place).bind fun _ => .refl _
  case h_8 name operands =>
    exact (hname name).bind fun _ =>
      (Agree.mapM (readOperand_moved t t' d) operands).bind fun _ => .refl _
  case h_9 word template target =>
    refine (htemplate template).bind fun _ => (hname target).bind fun _ => ?_
    rw [Parse.moved_text]
    exact .refl _
  case h_10 template first =>
    exact (htemplate template).bind fun _ => (hname first).bind fun _ => .refl _
  case h_11 template first last =>
    exact (htemplate template).bind fun _ => (hname first).bind fun _ =>
      (hname last).bind fun _ => .refl _

omit p in
theorem readOperation_edit (s : Source) {q : Part} (hq : q.rule ≠ ifExists) (i : Nat)
    (cs : List Char) : readOperation s (.node operation i cs [q]) = readEdit s q :=
  readOperation.eq_3 s i cs q (fun _ _ _ _ _ _ h => hq (by rw [h]; rfl))
    fun _ _ _ _ _ _ _ h => hq (by rw [h]; rfl)

theorem readOperation_moved :
    Agree (readOperation ⟨t, none⟩ p) (readOperation ⟨t', none⟩ (p.moved d)) := by
  induction p using readOperation.induct with
  | case1 i cs i' cs' word again name guarded ih =>
    exact (reference_moved t t' d name).bind fun _ => ih.bind fun _ => .refl _
  | case2 i cs i' cs' word no again name guarded ih =>
    exact (reference_moved t t' d name).bind fun _ => ih.bind fun _ => .refl _
  | case3 i cs q hguard hnoGuard =>
    by_cases hq : q.rule = ifExists
    · -- a guard with other parts is incomplete
      have hincomplete : readEdit ⟨t, none⟩ q = Source.incomplete ⟨t, none⟩ := by
        rw [readEdit, hq]
      rw [readOperation.eq_3 _ i cs q hguard hnoGuard, hincomplete]
      exact agree_error _ _
    · rw [readOperation_edit _ hq, Parse.moved, Parse.movedAll, Parse.movedAll,
        readOperation_edit _ (by rw [Parse.moved_rule]; exact hq)]
      exact readEdit_moved t t' d q
  | case4 q hguard hnoGuard hedit =>
    rw [readOperation.eq_4 _ q hguard hnoGuard hedit]
    exact agree_error _ _

/-- **Operations do not depend on what stands before them**, as long as they may refer to any
name. -/
theorem readOperations_moved (ps : List Part) :
    Agree (readOperations ⟨t, none⟩ ps) (readOperations ⟨t', none⟩ (ps.map (Parse.moved d))) := by
  induction ps with
  | nil => exact .refl _
  | cons p ps ih => exact (readOperation_moved t t' d p).bind fun o => ih.bind fun os => .refl _

variable {t}

theorem readOperations_append {ps qs : List Part} {os os' : List Operation}
    (hps : readOperations ⟨t, none⟩ ps = .ok os) (hqs : readOperations ⟨t, none⟩ qs = .ok os') :
    readOperations ⟨t, none⟩ (ps ++ qs) = .ok (os ++ os') := by
  induction ps generalizing os with
  | nil =>
    obtain rfl := Except.ok.inj hps
    exact hqs
  | cons p ps ih =>
    obtain ⟨o, ho, hps⟩ := bind_eq_ok.mp hps
    obtain ⟨os, hos, hps⟩ := bind_eq_ok.mp hps
    obtain rfl := Except.ok.inj hps
    exact bind_eq_ok.mpr ⟨o, ho, bind_eq_ok.mpr ⟨os ++ os', ih hos, rfl⟩⟩

end readers

end Constituency.ScriptReader
