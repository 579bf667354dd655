import Constituency.Proofs.Pattern.RoundTrip
import Constituency.Proofs.Surgery.Positions
import Constituency.Proofs.Surgery.Scripts

/-!
# Labels in quotation marks

Patterns and scripts have grammars of their own, and both have labels in quotation marks. Written
with a backslash before each backslash and each quotation mark, any text is one such label for both
of them, and the label that it stands for is the text (`Script.quoted_label`). So there is no label
that a pattern cannot ask for and a script cannot give.

For patterns this is a matter of one alternative of a label test. For scripts the operation is read
from its first word on: the word decides which operation it is, blanks come between its parts, and
the quotation mark at the end of the label is the end of the text.
-/

namespace Constituency

open Grammar

/-! ## Patterns of one alternative -/

namespace Pattern

open PatternReader PatternRule

/-- **An alternative of a label test is a pattern**, of one node that is tested for it. -/
theorem parse_atom {a : Atom} (ha : a.Writable) (marks : Marks) :
    ∃ p, Pattern.parse (String.ofList a.written) marks = .ok p ∧
      p.root = .mk ⟨false, .oneOf [a], []⟩ none none ∧ p.names = [] ∧ p.marks = marks := by
  let σ : Spelling := .usual fun _ => ""
  let root : NodePattern := .mk ⟨false, .oneOf [a], []⟩ none none
  have hwritable : root.Writable := by simpa [root, NodePattern.Writable, LabelTest.Writable]
  have hwritten : root.written σ = a.written := by
    simp [root, NodePattern.written, Description.written, LabelTest.written, Predicate.writtenAll,
      Spelling.capture]
  have hback : NodeReadsBack (root.written σ).length σ root :=
    node_of_description hwritable fun _ hu => absurd hu List.not_mem_nil
  obtain ⟨q, hnode, hq⟩ := hback [] (by simp) (by simp)
  have hblanks := afterBlanks_node (σ := σ) hwritable []
  rw [List.append_nil] at hnode hblanks
  rw [← hwritten]
  exact ⟨_, parse_unnamed hnode hblanks hq rfl (fun _ => rfl) marks, rfl, rfl, rfl⟩

end Pattern

/-! ## Relabelling -/

namespace Script

open ScriptRule ScriptReader

variable {n : Nat} {cs cs' rest : List Char}

/-- Between the parts of an operation one blank is enough. -/
theorem reads_behindBlank {a e : Expr ScriptRule} {ps qs : List (Parse ScriptRule)}
    (h : Reads scriptGrammar n .spaced a cs (some (' ' :: cs', ps))) (hcs' : Spaceless cs')
    (hsecond : Reads scriptGrammar n .spaced e cs' (some (rest, qs))) :
    Reads scriptGrammar n .spaced (.seq a e) cs (some (rest, ps ++ qs)) := by
  have hblank : afterSpace (' ' :: cs') = cs' := afterSpace_of_spaceless hcs'
  exact .seq h (reads_space _) (hblank.symm ▸ hsecond)

/-- A label in quotation marks is a new label. -/
theorem reads_quotedLabel (label : List Char) (hn : (Text.quote label).length ≤ n) :
    ∃ q, Reads scriptGrammar n .spaced (.rule newLabel) (Text.quote label) (some ([], [q])) ∧
      ∀ s, readLabel s q = .ok (.literal (String.ofList label)) := by
  have hquote : Text.quote label ++ [] = Text.quote label := List.append_nil _
  obtain ⟨i, j, hquoted⟩ : ∃ i j, Reads scriptGrammar n .spaced (.rule quoted)
      (Text.quote label ++ [])
      (some ([],
        [.node quoted i (Text.quote label) [.node quotedBody j (Text.escape label) []]])) :=
    reads_quotedText (by decide) rfl rfl rfl rfl label (hquote.symm ▸ hn)
  rw [hquote] at hquoted
  have hregex : Reads scriptGrammar n .spaced (.rule relabelRegex) (Text.quote label) none :=
    reads_noDelimiter (d := '/') rfl (show some '"' ≠ some '/' by decide)
  obtain ⟨u, w, hlabel⟩ := reads_part (k := .spaced) (r := newLabel) (by decide)
    (.altLeft (.altRight hregex hquoted)) hn
  refine ⟨_, hlabel, fun s => ?_⟩
  show Except.ok (Relabelling.literal (String.ofList (Text.unquote (Text.escape label)))) = _
  rw [PatternRule.unquote_escape]

/-- A name is a run of name characters. -/
theorem reads_nodeName {name : List Char} (hname : Text.isName name = true)
    (hrest : ∀ c ∈ rest.head?, Text.isNameChar c = false) (hn : (name ++ rest).length ≤ n) :
    ∃ i, Reads scriptGrammar n .spaced (.rule ScriptRule.name) (name ++ rest)
      (some (rest, [.node ScriptRule.name i name []])) := by
  obtain ⟨hne, hall⟩ := Bool.and_eq_true_iff.mp hname
  exact reads_node (by decide) (reads_run (by decide) (by simpa using hne)
    (List.all_eq_true.mp hall) hrest) hn

/-- The text of an operation that gives a node a label. -/
def relabelText (name label : List Char) : List Char :=
  "relabel".toList ++ ' ' :: (name ++ ' ' :: Text.quote label)

theorem reads_relabel {name : List Char} (hname : Text.isName name = true) (label : List Char)
    (hn : (relabelText name label).length ≤ n) :
    ∃ p, Reads scriptGrammar n .spaced (.rule relabel) (relabelText name label)
      (some ([], [p])) ∧ p.rule = relabel ∧ ∀ text, readEdit ⟨text, none⟩ p =
        .ok (.relabel (String.ofList name) (.literal (String.ofList label))) := by
  have hoperands : (name ++ ' ' :: Text.quote label).length ≤ n :=
    PatternRule.length_later (w := [' ']) (PatternRule.length_later (w := "relabel".toList) hn)
  have hlast : (Text.quote label).length ≤ n :=
    PatternRule.length_later (w := [' ']) (PatternRule.length_later (w := name) hoperands)
  let operands := ' ' :: (name ++ ' ' :: Text.quote label)
  have hlit : Reads scriptGrammar n .token (.lit "relabel") (relabelText name label)
      (some (operands, [])) := .text rfl
  have hend : Reads scriptGrammar n .token (.absent (.char Text.isNameChar)) operands
      (some (operands, [])) :=
    .absent (.noChar fun c hc => by obtain rfl := Option.some.inj hc; decide)
  have hword : Reads scriptGrammar n .token (body relabelWord) (relabelText name label)
      (some (operands, [])) := .next (by decide) hlit hend
  obtain ⟨i, w, hfirst⟩ := reads_part (k := .spaced) (r := relabelWord) (by decide) hword hn
  have hblank : ∀ c ∈ (' ' :: Text.quote label).head?, Text.isNameChar c = false :=
    fun c hc => by obtain rfl := Option.some.inj hc; decide
  obtain ⟨j, hnode⟩ := reads_nodeName hname hblank hoperands
  obtain ⟨q, hlabel, hread⟩ := reads_quotedLabel label hlast
  have hspaceless : Spaceless (name ++ ' ' :: Text.quote label) := by
    obtain ⟨hne, hall⟩ := Bool.and_eq_true_iff.mp hname
    obtain ⟨c, name, rfl⟩ := List.exists_cons_of_ne_nil (show name ≠ [] by simpa using hne)
    have hc := List.all_eq_true.mp hall c (List.mem_cons_self ..)
    rintro d hd
    obtain rfl := Option.some.inj hd
    constructor
    · refine Bool.eq_false_iff.mpr fun hblank => ?_
      rcases Bool.or_eq_true_iff.mp hblank with hd | hd
      · exact absurd (beq_iff_eq.mp hd ▸ hc) (by decide)
      · exact absurd (beq_iff_eq.mp hd ▸ hc) (by decide)
    · rintro rfl
      exact absurd hc (by decide)
  have hquote : Spaceless (Text.quote label) := by
    intro c hc
    obtain rfl := Option.some.inj hc
    decide
  have hbody : Reads scriptGrammar n .spaced (body relabel) (relabelText name label) _ :=
    reads_behindBlank (reads_behindBlank hfirst hspaceless hnode) hquote hlabel
  obtain ⟨u, v, hrule⟩ := reads_part (k := .spaced) (r := relabel) (by decide) hbody hn
  refine ⟨_, hrule, rfl, fun text => ?_⟩
  rw [readEdit]
  dsimp only [Parse.rule, Parse.parts, List.nil_append, List.cons_append]
  rw [hread]
  rfl

/-- **The text of a relabelling is a script** of this operation alone. -/
theorem parse_relabel {name : List Char} (hname : Text.isName name = true) (label : List Char) :
    ∃ s, Script.parse (String.ofList (relabelText name label)) = .ok s ∧
      s.operations = [.relabel (String.ofList name) (.literal (String.ofList label))] := by
  obtain ⟨p, hrelabel, hrule, hread⟩ := reads_relabel hname label (Nat.le_refl _)
  have hword : "relabel" ∈ keywords relabel := List.mem_singleton_self _
  have hfirst : firstWord (relabelText name label) = "relabel".toList := by
    refine firstWord_eq (names_of_keywords _ hword) fun c hc => ?_
    obtain rfl := Option.some.inj hc
    decide
  have hchoice : Reads scriptGrammar (relabelText name label).length .spaced (body operation)
      (relabelText name label) (some ([], [p])) := by
    have hr : relabel ∈ operationRules := by decide
    show Reads _ _ .spaced (.choice ifExists operationRules.tail) _ _
    refine reads_choice hr hrelabel fun q hq hne => reads_noKeyword hq fun w hw heq => hne ?_
    rw [hfirst] at heq
    exact eq_of_keyword q hq relabel hr w hw (String.toList_inj.mp heq ▸ hword)
  obtain ⟨i, w, hoperation⟩ := reads_part (k := .spaced) (r := operation) (by decide) hchoice
    (Nat.le_refl _)
  have hhere : nextOperation (relabelText name label) = relabelText name label := by
    refine nextOperation_of_spaceless (fun c hc => ?_) fun c hc => ?_
    · obtain rfl := Option.some.inj hc
      decide
    · obtain rfl := Option.some.inj hc
      decide
  have hall : ReadsOperations (relabelText name label).length
      (nextOperation (relabelText name label)) [.node operation i w [p]] := by
    rw [hhere]
    exact .cons hoperation (fun c hc => absurd hc (by simp [afterSpace])) .nil
  obtain ⟨parsed, hparse, hfilter⟩ := parse_script.mpr hall
  have hguard : p.rule ≠ ifExists := by
    rw [hrule]
    decide
  unfold Script.parse ScriptReader.operations
  rw [String.toList_ofList, hparse]
  dsimp only
  rw [hfilter, readOperations, readOperation_edit _ hguard, hread]
  exact ⟨_, rfl, rfl⟩

/-- **Any label can be asked for by a pattern and given by a script, with the same spelling.**

Take the text of a label between quotation marks, with a backslash before every backslash and every
quotation mark. It is a pattern of one node without names, which tests whether the label of the node
is this one. Behind an `@` it is such a pattern that tests for the category. Behind `relabel` and a
name it is a script of one operation, which gives the node of that name exactly this label. -/
theorem quoted_label (label name : String) (marks : Marks)
    (hname : Text.isName name.toList = true) :
    let quoted := String.ofList (Text.quote label.toList)
    (∃ p d, Pattern.parse quoted marks = .ok p ∧ p.root = .mk d none none ∧ p.names = [] ∧
      d = ⟨false, .oneOf [.literal label], []⟩ ∧
      ∀ t b id, d.holds t p.marks b id = true ↔ t.label id = label) ∧
    (∃ p d, Pattern.parse ("@" ++ quoted) marks = .ok p ∧ p.root = .mk d none none ∧ p.names = [] ∧
      d = ⟨false, .oneOf [.category label], []⟩ ∧
      ∀ t b id, d.holds t p.marks b id = true ↔ (t.label id).category marks = label) ∧
    ∃ s, Script.parse ("relabel " ++ name ++ " " ++ quoted) = .ok s ∧
      s.operations = [.relabel name (.literal label)] := by
  intro quoted
  refine ⟨?_, ?_, ?_⟩
  · obtain ⟨p, hp, hroot, hnames, _⟩ := Pattern.parse_atom (a := .literal label) trivial marks
    refine ⟨p, _, hp, hroot, hnames, rfl, fun t b id => ?_⟩
    simp [Description.holds, LabelTest.holds, Atom.matches]
  · obtain ⟨p, hp, hroot, hnames, rfl⟩ := Pattern.parse_atom (a := .category label) trivial marks
    have htext : "@" ++ quoted = String.ofList (Atom.category label).written := by
      apply String.toList_inj.mp
      simp [quoted, Atom.written]
    refine ⟨p, _, htext ▸ hp, hroot, hnames, rfl, fun t b id => ?_⟩
    simp [Description.holds, LabelTest.holds, Atom.matches]
  · obtain ⟨s, hs, hoperations⟩ := parse_relabel hname label.toList
    rw [String.ofList_toList, String.ofList_toList] at hoperations
    have htext : "relabel " ++ name ++ " " ++ quoted =
        String.ofList (relabelText name.toList label.toList) := by
      apply String.toList_inj.mp
      simp only [quoted, String.toList_append, String.toList_ofList, List.append_assoc]
      rfl
    exact ⟨s, htext ▸ hs, hoperations⟩

/-- A backslash before a quotation mark, a line end, and what would begin a template and a
comment. -/
theorem quoted_label_of_backslashes :
    let label := "\\\"\n(% é"
    let quoted := "\"\\\\\\\"\n(% é\""
    Text.isName "n".toList = true ∧ String.ofList (Text.quote label.toList) = quoted ∧
      (∃ p, Pattern.parse quoted .standard = .ok p ∧ p.names = [] ∧
        p.root = .mk ⟨false, .oneOf [.literal label], []⟩ none none) ∧
      ∃ s, Script.parse ("relabel n " ++ quoted) = .ok s ∧
        s.operations = [.relabel "n" (.literal label)] := by
  intro label quoted
  have hquoted : String.ofList (Text.quote label.toList) = quoted := by decide
  have hfront : "relabel " ++ "n" ++ " " = "relabel n " := by decide
  obtain ⟨⟨p, d, hp, hroot, hnames, hd, _⟩, _, s, hs, hoperations⟩ :=
    quoted_label label "n" .standard (by decide)
  rw [hquoted] at hp hs
  rw [hfront] at hs
  exact ⟨by decide, hquoted, ⟨p, hp, hnames, hd ▸ hroot⟩, s, hs, hoperations⟩

end Script

end Constituency
