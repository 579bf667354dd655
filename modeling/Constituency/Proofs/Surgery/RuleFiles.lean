import Constituency.Proofs.Text.Chars
import Constituency.Surgery.RuleFile

/-!
# Patterns and scripts set out in a file

Patterns and scripts by turns, set out with blank lines between them and with comments anywhere,
are read as if each was read by itself (`RuleFile.parse_intercalate`). A comment inside a pattern or
a script does not end it, and several blank lines end it no more than one does.

The reader splits a file into lines, drops the comments and splits the rest at the blank lines. The
lines that count are the same whether they are taken from the file or as they were set out, since a
carriage return before a line end is a blank, and a text has none (`groups_lines`).
-/

namespace Constituency.RuleFile

/-! ## Files -/

/-- A text that can stand in a file as it is: each of its lines counts and none is blank. So it does
not begin with a line end. -/
structure IsBlock (text : List Char) : Prop where
  ne_nil : text ≠ []
  no_return : '\r' ∉ text
  not_blank : ∀ line ∈ Text.lines text, isSeparator line = false
  no_comment : ∀ line ∈ Text.lines text, isContent line = true
  no_line_end : text.getLast? ≠ some '\n'

/-- A line that only has blanks. -/
structure IsBlankLine (line : List Char) : Prop where
  isSeparator : isSeparator line = true
  no_newline : '\n' ∉ line

/-- A line that begins with a percent sign, after blanks or not. -/
structure IsComment (line : List Char) : Prop where
  not_content : isContent line = false
  no_newline : '\n' ∉ line

/-- The lines of texts that are set out one behind the other, with one blank line or more between
two of them. -/
inductive Separated : List (List Char) → List (List Char) → Prop
  | nil : Separated [] []
  | blank {b texts lines} : IsBlankLine b → Separated texts lines → Separated texts (b :: lines)
  | last {t} : Separated [t] (Text.fields (· == '\n') t)
  | text {t b texts lines} : IsBlankLine b → Separated texts lines →
      Separated (t :: texts) (Text.fields (· == '\n') t ++ b :: lines)

/-- Lines with comments put in anywhere. -/
inductive Commented : List (List Char) → List (List Char) → Prop
  | nil : Commented [] []
  | line {l plain lines} : Commented plain lines → Commented (l :: plain) (l :: lines)
  | comment {c plain lines} : IsComment c → Commented plain lines → Commented plain (c :: lines)

/-- The rule that two texts make, or what is wrong with the first of them that does not read. -/
def readPair (marks : Marks) (p : List Char × List Char) : Except Error Rule := do
  let pattern ← (Pattern.parse (String.ofList p.1) marks).mapError .pattern
  let script ← (Script.parseFor pattern (String.ofList p.2)).mapError .script
  return ⟨pattern, script⟩

/-- The texts of patterns and scripts in the order of a file. -/
def textsOf (pairs : List (List Char × List Char)) : List (List Char) :=
  pairs.flatMap fun p => [p.1, p.2]

/-! ## Lines and their groups -/

/-- The runs of lines between blank ones, without the comments. No run is empty. -/
def groups (lines : List (List Char)) : List (List (List Char)) :=
  (Text.fields isSeparator (lines.filter isContent)).filter (!·.isEmpty)

theorem blocks_eq (text : List Char) :
    blocks text = (groups (Text.lines text)).map ['\n'].intercalate := rfl

variable {b line : List Char} {lines plain texts : List (List Char)}

theorem isContent_of_isSeparator (h : isSeparator line = true) : isContent line = true := by
  rw [isContent, List.isEmpty_iff.mp h]
  rfl

theorem isSeparator_dropReturn (line : List Char) :
    isSeparator (Text.dropReturn line) = isSeparator line := by
  rw [isSeparator, isSeparator, Text.trim_dropReturn]

theorem isContent_dropReturn (line : List Char) :
    isContent (Text.dropReturn line) = isContent line := by
  rw [isContent, isContent, Text.trim_dropReturn]

/-- A carriage return at the end of a comment or of a blank line is not seen in the fields between
blank lines. -/
theorem fields_dropReturn {ended : List (List Char)} (rest : List (List Char))
    (h : ∀ l ∈ ended, isContent l = true → isSeparator l = false → Text.dropReturn l = l) :
    Text.fields isSeparator ((ended.map Text.dropReturn ++ rest).filter isContent) =
      Text.fields isSeparator ((ended ++ rest).filter isContent) := by
  induction ended with
  | nil => rfl
  | cons l ended ih =>
    obtain ⟨hl, hended⟩ := List.forall_mem_cons.mp h
    rw [List.map_cons, List.cons_append, List.cons_append, List.filter_cons, List.filter_cons,
      isContent_dropReturn]
    by_cases hcontent : isContent l = true
    · rw [if_pos hcontent, if_pos hcontent, Text.fields, Text.fields, isSeparator_dropReturn,
        ih hended]
      by_cases hblank : isSeparator l = true
      · rw [if_pos hblank, if_pos hblank]
      · rw [hl hcontent (Bool.eq_false_iff.mpr hblank)]
    · rw [if_neg hcontent, if_neg hcontent, ih hended]

/-- An empty last line makes no group. -/
theorem groups_concat_nil (lines : List (List Char)) : groups (lines ++ [[]]) = groups lines := by
  have hnil : [([] : List Char)].filter isContent = [[]] := rfl
  rw [groups, groups, List.filter_append, hnil, Text.fields_append_separator (by rfl),
    List.filter_append]
  exact List.append_nil _

/-- **The lines of a file have the groups of the lines that it was put together of.** -/
theorem groups_lines (hnewline : ∀ l ∈ lines, '\n' ∉ l)
    (hreturn : ∀ l ∈ lines, isContent l = true → isSeparator l = false → Text.dropReturn l = l) :
    groups (Text.lines (['\n'].intercalate lines)) = groups lines := by
  cases lines with
  | nil => rfl
  | cons l ls =>
    have hfields : Text.fields (· == '\n') (['\n'].intercalate (l :: ls)) = l :: ls := by
      refine Text.fields_intercalate l ls fun k hk c hc => ?_
      exact beq_eq_false_iff_ne.mpr fun heq => hnewline k hk (heq ▸ hc)
    obtain ⟨ended, last, hall⟩ : ∃ ended last, l :: ls = ended ++ [last] :=
      ⟨_, _, (List.dropLast_concat_getLast (List.cons_ne_nil l ls)).symm⟩
    have hended : groups (ended.map Text.dropReturn ++ [last]) = groups (ended ++ [last]) := by
      rw [groups, fields_dropReturn [last] fun k hk =>
        hreturn k (hall ▸ List.mem_append_left [last] hk), groups]
    rw [Text.lines_eq (hfields.trans hall), hall, ← hended]
    split
    · rename_i hlast
      rw [List.isEmpty_iff.mp hlast, List.append_nil, groups_concat_nil]
    · rfl

theorem groups_blank (hb : isSeparator b = true) (lines : List (List Char)) :
    groups (b :: lines) = groups lines := by
  rw [groups, List.filter_cons_of_pos (isContent_of_isSeparator hb), Text.fields, if_pos hb]
  rfl

theorem Commented.groups_eq (h : Commented plain lines) : groups lines = groups plain := by
  have hfilter : lines.filter isContent = plain.filter isContent := by
    induction h with
    | nil => rfl
    | line _ ih => rw [List.filter_cons, List.filter_cons, ih]
    | comment hc _ ih => rw [List.filter_cons_of_neg (by simp [hc.not_content]), ih]
  rw [groups, hfilter, groups]

/-! ## Texts and their lines -/

namespace IsBlock

variable {t : List Char} (h : IsBlock t)

include h

theorem lines_eq : Text.lines t = Text.fields (· == '\n') t :=
  Text.lines_eq_fields h.ne_nil h.no_return h.no_line_end

theorem not_blank_fields : ∀ line ∈ Text.fields (· == '\n') t, isSeparator line = false :=
  h.lines_eq ▸ h.not_blank

theorem filter_fields :
    (Text.fields (· == '\n') t).filter isContent = Text.fields (· == '\n') t :=
  List.filter_eq_self.mpr (h.lines_eq ▸ h.no_comment)

theorem dropReturn_of_mem (hline : line ∈ Text.fields (· == '\n') t) :
    Text.dropReturn line = line :=
  if_neg fun hlast => h.no_return (Text.mem_of_mem_fields hline (List.mem_of_getLast? hlast)).1

/-- The lines of a text by themselves are one group. -/
theorem groups_fields : groups (Text.fields (· == '\n') t) = [Text.fields (· == '\n') t] := by
  have hne : Text.fields (· == '\n') t ≠ [] := Text.fields_ne_nil t
  rw [groups, h.filter_fields, Text.fields_eq_singleton h.not_blank_fields,
    List.filter_cons_of_pos (by simpa using hne), List.filter_nil]

/-- The lines of a text before a blank one are the first group. -/
theorem groups_append (hb : IsBlankLine b) (lines : List (List Char)) :
    groups (Text.fields (· == '\n') t ++ b :: lines) =
      Text.fields (· == '\n') t :: groups lines := by
  have hne : Text.fields (· == '\n') t ≠ [] := Text.fields_ne_nil t
  rw [groups, List.filter_append, h.filter_fields,
    List.filter_cons_of_pos (isContent_of_isSeparator hb.isSeparator),
    Text.fields_append_cons h.not_blank_fields hb.isSeparator,
    List.filter_cons_of_pos (by simpa using hne), groups]

end IsBlock

/-- Blank lines between texts, one or more, keep them apart and are nothing else. -/
theorem Separated.groups_eq (h : Separated texts lines) (hblocks : ∀ t ∈ texts, IsBlock t) :
    groups lines = texts.map (Text.fields (· == '\n')) := by
  induction h with
  | nil => rfl
  | blank hb _ ih => rw [groups_blank hb.isSeparator, ih hblocks]
  | last => exact (hblocks _ (List.mem_singleton_self _)).groups_fields
  | text hb _ ih =>
    obtain ⟨ht, hothers⟩ := List.forall_mem_cons.mp hblocks
    rw [ht.groups_append hb, ih hothers, List.map_cons]

/-! ## What is read of a file -/

/-- A line that can be in a file: it is read as it stands if it is read. -/
structure IsSteady (line : List Char) : Prop where
  no_newline : '\n' ∉ line
  dropReturn_eq : isContent line = true → isSeparator line = false → Text.dropReturn line = line

theorem Separated.isSteady (h : Separated texts lines) (hblocks : ∀ t ∈ texts, IsBlock t) :
    ∀ l ∈ lines, IsSteady l := by
  have hblank : ∀ b, IsBlankLine b → IsSteady b := fun b hb =>
    ⟨hb.no_newline, fun _ hsome => absurd hsome (by simp [hb.isSeparator])⟩
  have htext : ∀ t, IsBlock t → ∀ l ∈ Text.fields (· == '\n') t, IsSteady l := fun t ht l hl =>
    ⟨fun hmem => absurd (Text.mem_of_mem_fields hl hmem).2 (by decide),
      fun _ _ => ht.dropReturn_of_mem hl⟩
  induction h with
  | nil => exact fun l hl => absurd hl List.not_mem_nil
  | blank hb _ ih => exact List.forall_mem_cons.mpr ⟨hblank _ hb, ih hblocks⟩
  | last => exact htext _ (hblocks _ (List.mem_singleton_self _))
  | text hb _ ih =>
    obtain ⟨ht, hothers⟩ := List.forall_mem_cons.mp hblocks
    exact List.forall_mem_append.mpr
      ⟨htext _ ht, List.forall_mem_cons.mpr ⟨hblank _ hb, ih hothers⟩⟩

theorem Commented.isSteady (h : Commented plain lines) (hplain : ∀ l ∈ plain, IsSteady l) :
    ∀ l ∈ lines, IsSteady l := by
  induction h with
  | nil => exact hplain
  | line _ ih =>
    obtain ⟨hl, hothers⟩ := List.forall_mem_cons.mp hplain
    exact List.forall_mem_cons.mpr ⟨hl, ih hothers⟩
  | comment hc _ ih =>
    refine List.forall_mem_cons.mpr ⟨⟨hc.no_newline, fun hcontent => ?_⟩, ih hplain⟩
    exact absurd hcontent (by simp [hc.not_content])

/-- **The blocks of a file are the texts that were set out in it.** -/
theorem blocks_intercalate (hblocks : ∀ t ∈ texts, IsBlock t) (hplain : Separated texts plain)
    (hlines : Commented plain lines) : blocks (['\n'].intercalate lines) = texts := by
  have hsteady := hlines.isSteady (hplain.isSteady hblocks)
  rw [blocks_eq, groups_lines (fun l hl => (hsteady l hl).no_newline)
    fun l hl => (hsteady l hl).dropReturn_eq, hlines.groups_eq, hplain.groups_eq hblocks,
    List.map_map]
  exact (List.map_congr_left fun t _ => Text.intercalate_fields t).trans (List.map_id texts)

/-- Texts by turns are read pair by pair, up to the first that does not read. -/
theorem readBlocks_textsOf (marks : Marks) (pairs : List (List Char × List Char)) :
    readBlocks marks (textsOf pairs) = pairs.mapM (readPair marks) := by
  induction pairs with
  | nil => rfl
  | cons p pairs ih =>
    have htexts : textsOf (p :: pairs) = p.1 :: p.2 :: textsOf pairs := rfl
    rw [htexts, readBlocks, List.mapM_cons, readPair, ← ih]
    simp only [bind_assoc, pure_bind]

/-- **Patterns and scripts that are set out in a file are read one by one**, each script for the
pattern before it: they come back in order, or else what is wrong with the first text that does not
read. -/
theorem parse_intercalate {pairs : List (List Char × List Char)}
    (hblocks : ∀ p ∈ pairs, IsBlock p.1 ∧ IsBlock p.2)
    (hplain : Separated (textsOf pairs) plain) (hlines : Commented plain lines) (marks : Marks) :
    parse (String.ofList (['\n'].intercalate lines)) marks = pairs.mapM (readPair marks) := by
  have htexts : ∀ t ∈ textsOf pairs, IsBlock t := by
    intro t ht
    obtain ⟨p, hp, ht⟩ := List.mem_flatMap.mp ht
    rcases List.mem_cons.mp ht with rfl | ht
    · exact (hblocks p hp).1
    · exact List.mem_singleton.mp ht ▸ (hblocks p hp).2
  rw [parse, String.toList_ofList, blocks_intercalate htexts hplain hlines, readBlocks_textsOf]

/-- A pattern of two lines with a comment between them, and a blank line that has a carriage return
and a blank. -/
theorem parse_intercalate_of_comment_inside :
    let pairs := [("S\n< NP=n".toList, "delete n".toList)]
    let plain := ["S".toList, "< NP=n".toList, " \r".toList, "delete n".toList]
    let lines := ["S".toList, " % one".toList, "< NP=n".toList, " \r".toList, "delete n".toList]
    (∀ p ∈ pairs, IsBlock p.1 ∧ IsBlock p.2) ∧ Separated (textsOf pairs) plain ∧
      Commented plain lines ∧
      parse "S\n % one\n< NP=n\n \r\ndelete n" .standard = pairs.mapM (readPair .standard) := by
  intro pairs plain lines
  have hblocks : ∀ p ∈ pairs, IsBlock p.1 ∧ IsBlock p.2 := by
    intro p hp
    obtain rfl := List.mem_singleton.mp hp
    constructor <;> constructor <;> decide
  have hplain : Separated (textsOf pairs) plain :=
    .text ⟨by decide, by decide⟩ .last
  have hlines : Commented plain lines :=
    .line (.comment ⟨by decide, by decide⟩ (.line (.line (.line .nil))))
  exact ⟨hblocks, hplain, hlines, parse_intercalate hblocks hplain hlines .standard⟩

end Constituency.RuleFile
