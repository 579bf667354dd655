import Constituency.Proofs.Pattern.Descriptions

/-!
# Where parts of a pattern start

Where the parts of a pattern start shows in errors only. The same parts at other places mention the
same names (`PatternReader.keys_placed`), and they are read as the same node if the names are
numbered in the same way (`PatternReader.isPlaceless`).
-/

namespace Constituency

namespace Grammar.Parse

variable {R : Type}

mutual

/-- A parse with other places. -/
def placed (f : Nat → Nat) : Parse R → Parse R
  | node r i cs ps => node r (f i) cs (placedAll f ps)

/-- Several parses with other places. -/
def placedAll (f : Nat → Nat) : List (Parse R) → List (Parse R)
  | [] => []
  | p :: ps => placed f p :: placedAll f ps

end

theorem placedAll_eq (f : Nat → Nat) (ps : List (Parse R)) :
    placedAll f ps = ps.map (placed f) := by
  induction ps with
  | nil => rfl
  | cons p ps ih => rw [placedAll, ih, List.map_cons]

theorem placed_rule (f : Nat → Nat) (p : Parse R) : (p.placed f).rule = p.rule := by
  cases p
  rfl

theorem placed_text (f : Nat → Nat) (p : Parse R) : (p.placed f).text = p.text := by
  cases p
  rfl

theorem placed_parts (f : Nat → Nat) (p : Parse R) :
    (p.placed f).parts = p.parts.map (placed f) := by
  cases p
  exact placedAll_eq f _

mutual

/-- A parse that was moved can be put to another place. -/
theorem moved_placed (d e : Nat) : ∀ p : Parse R,
    (p.moved d).placed (fun i => i - d + e) = p.moved e
  | node r i cs ps => by
    rw [moved, placed, moved, movedAll_placed d e ps, Nat.add_sub_cancel]

theorem movedAll_placed (d e : Nat) : ∀ ps : List (Parse R),
    placedAll (fun i => i - d + e) (movedAll d ps) = movedAll e ps
  | [] => rfl
  | p :: ps => by rw [movedAll, placedAll, movedAll, moved_placed d e p, movedAll_placed d e ps]

end

end Grammar.Parse

namespace PatternReader

open Grammar

variable (f : Nat → Nat)

theorem nameOf_placed (p : Part) : nameOf (p.placed f) = nameOf p := by
  unfold nameOf
  rw [Parse.placed_parts]
  rcases p.parts with _ | ⟨q, ps⟩
  · rfl
  · rw [List.map_cons]
    dsimp only
    rw [Parse.placed_text]

theorem labelText_placed (p : Part) : labelText (p.placed f) = labelText p := by
  obtain ⟨r, i, cs, ps⟩ := p
  cases r with
  | quoted =>
    cases ps with
    | nil => rfl
    | cons q ps =>
      exact congrArg (fun cs => String.ofList (Text.unquote cs)) (Parse.placed_text f q)
  | _ => rfl

section readers

variable {s s' : Source}

theorem atom_placed (p : Part) : Agree (atom s p) (atom s' (p.placed f)) := by
  unfold atom
  split
  · rename_i j cs body _
    simp only [Parse.placed, Parse.placedAll, Parse.placed_text]
    cases Regex.compile? (String.ofList (Text.unslash body.text)) with
    | none => exact agree_error _ _
    | some r => exact .refl _
  · simp only [Parse.placed, Parse.placedAll, labelText_placed]
    exact .refl _
  · rename_i label hregex hcategory
    obtain ⟨r, i, cs, qs⟩ := label
    have hlabel := labelText_placed f (.node r i cs qs)
    have hliteral : Agree (.ok (.literal (labelText (.node r i cs qs))) : Except PatternError Atom)
        (.ok (.literal (labelText (Parse.placed f (.node r i cs qs))))) := by
      rw [hlabel]
      exact .refl _
    cases r with
    | regex =>
      cases qs with
      | nil => exact hliteral
      | cons q qs => exact absurd rfl (hregex i cs q qs)
    | category =>
      cases qs with
      | nil => exact hliteral
      | cons q qs => exact absurd rfl (hcategory i cs q qs)
    | _ => exact hliteral
  · exact agree_error _ _

variable (hs : s'.names = s.names)

include hs

theorem variable_eq (name : String) : s'.variable name = s.variable name := by
  rw [Source.variable, Source.variable, hs]

theorem labelTest_placed (p : Part) : Agree (labelTest s p) (labelTest s' (p.placed f)) := by
  have hname : ∀ q : Part, s'.variable (nameOf (q.placed f)) = s.variable (nameOf q) :=
    fun q => by rw [variable_eq hs, nameOf_placed]
  unfold labelTest
  rw [Parse.placed_parts]
  generalize p.parts = ps
  split
  · exact .refl _
  · rename_i i cs qs
    exact hname (.node .sameNode i cs qs) ▸ .refl _
  · rename_i i cs qs
    exact hname (.node .sameLabel i cs qs) ▸ .refl _
  · rename_i i cs atoms
    rw [List.map_singleton, Parse.placed, Parse.placedAll_eq]
    exact (Agree.mapM (atom_placed f) atoms).map
  · exact agree_error _ _

theorem describePart_placed (before : Description × Option VarId) (p : Part) :
    Agree (describePart s before p) (describePart s' before (p.placed f)) := by
  unfold describePart
  dsimp only
  rw [Parse.placed_rule, Parse.placed_parts]
  split
  · exact .refl _
  · exact (labelTest_placed f hs p).bind fun _ => .refl _
  · rcases p.parts with _ | ⟨kind, ps⟩
    · exact agree_error _ _
    · rw [List.map_cons]
      dsimp only
      rw [Parse.placed_text]
      exact .refl _
  · rw [nameOf_placed, variable_eq hs]
    split
    · exact agree_error _ _
    · exact .refl _
  · exact .refl _

theorem describe_placed (p : Part) : Agree (describe s p) (describe s' (p.placed f)) := by
  unfold describe
  rw [Parse.placed_parts]
  generalize (Description.any, (none : Option VarId)) = before
  induction p.parts generalizing before with
  | nil => exact .refl _
  | cons q qs ih =>
    rw [List.map_cons, List.foldlM_cons, List.foldlM_cons]
    exact (describePart_placed f hs before q).bind fun after => ih after

omit hs in
theorem childPosition_placed (p : Part) :
    Agree (childPosition s p) (childPosition s' (p.placed f)) := by
  unfold childPosition
  rw [Parse.placed_text]
  split
  · split
    · exact agree_error _ _
    · split
      · exact agree_error _ _
      · exact .refl _
  · exact agree_error _ _

theorem relationOf_placed (p : Part) : Agree (relationOf s p) (relationOf s' (p.placed f)) := by
  unfold relationOf
  rw [Parse.placed_parts]
  generalize p.parts = ps
  split
  · rename_i i cs direction between
    simp only [List.map_cons, List.map_nil, Parse.placed, Parse.placedAll, Parse.placed_text]
    refine (describe_placed f hs between).bind fun after => ?_
    split
    · exact agree_error _ _
    · split
      · exact .refl _
      · exact .refl _
  · rename_i i cs qs
    exact (childPosition_placed f (.node .nthOp i cs qs)).bind fun n => .refl _
  · rename_i i cs qs
    simp only [List.map_cons, List.map_nil, Parse.placed]
    split
    · exact .refl _
    · exact agree_error _ _
  · exact agree_error _ _

/-- A part that is read as the same node or condition wherever it starts. -/
structure IsPlaceless (f : Nat → Nat) (s s' : Source) (p : Part) : Prop where
  node : Agree (nodePattern s p) (nodePattern s' (p.placed f))
  condition : Agree (condition s p) (condition s' (p.placed f))

omit hs in
theorem conditions_placed {ps : List Part} (h : ∀ q ∈ ps, IsPlaceless f s s' q) :
    Agree (conditions s ps) (conditions s' (ps.map (Parse.placed f))) := by
  induction ps with
  | nil => exact .refl _
  | cons p ps ih =>
    obtain ⟨hp, hps⟩ := List.forall_mem_cons.mp h
    exact hp.condition.bind fun c => (ih hps).bind fun cs => .refl _

theorem nodePattern_of_parts {p : Part} (h : ∀ q ∈ p.parts, IsPlaceless f s s' q) :
    Agree (nodePattern s p) (nodePattern s' (p.placed f)) := by
  unfold nodePattern
  split
  · exact (h _ (List.mem_cons_self ..)).node
  · rename_i head relations
    exact (h head (by simp [Parse.parts])).node.bind fun np =>
      (h relations (by simp [Parse.parts])).condition.bind fun c => .refl _
  · rename_i i cs ps
    exact (describe_placed f hs (.node .description i cs ps)).bind fun _ => .refl _
  · exact agree_error _ _

theorem condition_of_parts {p : Part} (h : ∀ q ∈ p.parts, IsPlaceless f s s' q) :
    Agree (condition s p) (condition s' (p.placed f)) := by
  rw [condition.eq_def s p]
  split
  case h_1 i cs ps | h_2 i cs ps =>
    rw [Parse.placed, Parse.placedAll_eq, condition]
    exact (conditions_placed f h).map
  case h_3 | h_4 =>
    rename_i q
    exact (h q (by simp [Parse.parts])).condition.map
  case h_5 i cs q =>
    rw [Parse.placed, Parse.placedAll, Parse.placedAll, condition]
    exact (h q (List.mem_cons_self ..)).condition
  case h_6 =>
    rename_i op target
    exact (relationOf_placed f hs op).bind fun r =>
      (h target (by simp [Parse.parts])).node.bind fun np => .refl _
  case h_7 => exact agree_error _ _

end readers

mutual

/-- **Parts are read as the same wherever they start.** -/
theorem isPlaceless {s s' : Source} (hs : s'.names = s.names) : ∀ p : Part, IsPlaceless f s s' p
  | .node r i cs ps =>
    have h : ∀ q ∈ (Parse.node r i cs ps).parts, IsPlaceless f s s' q := areIsPlaceless hs ps
    ⟨nodePattern_of_parts f hs h, condition_of_parts f hs h⟩

theorem areIsPlaceless {s s' : Source} (hs : s'.names = s.names) :
    ∀ ps : List Part, ∀ q ∈ ps, IsPlaceless f s s' q
  | [] => fun _ hq => absurd hq List.not_mem_nil
  | p :: ps => List.forall_mem_cons.mpr ⟨isPlaceless hs p, areIsPlaceless hs ps⟩

end

/-! ## Names -/

/-- **The same names are mentioned by the same parts at other places.** -/
theorem keys_placed :
    (∀ (b : Bool) (p : Part), (mentions b (p.placed f)).map Mention.key =
      (mentions b p).map Mention.key) ∧
    ∀ (b : Bool) (ps : List Part), (mentionsAll b (ps.map (Parse.placed f))).map Mention.key =
      (mentionsAll b ps).map Mention.key := by
  have hname : ∀ (r : PatternRule) (i : Nat) (cs : List Char) (ps : List Part),
      nameOf (.node r (f i) cs (Parse.placedAll f ps)) = nameOf (.node r i cs ps) :=
    fun r i cs ps => nameOf_placed f (.node r i cs ps)
  have hall := mentions.mutual_induct
    (fun b p => (mentions b (p.placed f)).map Mention.key = (mentions b p).map Mention.key)
    (fun b ps => (mentionsAll b (ps.map (Parse.placed f))).map Mention.key =
      (mentionsAll b ps).map Mention.key)
    ?negation ?capture ?sameNode ?sameLabel ?other ?nil ?cons
  · exact hall
  case negation =>
    intro b _ _ _ _ _ ps ih
    rw [Parse.placed, Parse.placedAll, Parse.placedAll_eq, Parse.placed, mentions, mentions]
    exact ih
  case capture | sameNode | sameLabel =>
    intro b i cs ps
    rw [Parse.placed, mentions, mentions, hname]
    rfl
  case other =>
    intro b r i cs ps hterm hcapture hsameNode hsameLabel ih
    -- the first of the parts is a negation at no place
    have hplaced : ∀ start text parts qs, r = .term →
        ps.map (Parse.placed f) = .node .negation start text parts :: qs → False := by
      intro start text parts qs hr hps
      obtain ⟨⟨r', j, w, rs⟩, ps, rfl, hp, -⟩ := List.map_eq_cons_iff.mp hps
      rw [Parse.placed] at hp
      obtain ⟨rfl, -, rfl, -⟩ := Parse.node.inj hp
      exact hterm j w rs ps hr rfl
    rw [Parse.placed, Parse.placedAll_eq, mentions, mentions]
    · exact ih
    all_goals assumption
  case nil => exact fun _ => rfl
  case cons =>
    intro b p ps hp hps
    rw [List.map_cons, mentionsAll, mentionsAll, List.map_append, List.map_append, hp, hps]

end PatternReader

end Constituency
