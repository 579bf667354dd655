import Constituency.Proofs.Bracket.RoundTrip
import Constituency.Proofs.Text.Chars
import Constituency.Search.Treebank

/-!
# Trees written one on a line

There are two readers: one for the text of a single tree, which goes by tokens, and one for a
stream, which goes by characters and only counts parentheses. A stream reader that is inside
parentheses takes up the written form of a constituent whole and is then as deep as before
(`Inside`), since there are no parentheses in labels. So the line of a tree in parentheses is one
group, which is the text of the tree.

A tree of a single node is written without parentheses. Its text is a tree to the first reader, but
to the second it is a stray character (`lineItem`). Hence a list of trees comes back from its lines
exactly if none of the trees is of this kind.
-/

namespace Constituency

/-! ## The lines of a text -/

namespace Text

/-- A line of a text that is neither empty nor cut by a line end. -/
structure IsLine (l : List Char) : Prop where
  ne_nil : l ≠ []
  no_newline : ∀ c ∈ l, (c == '\n') = false
  no_return : l.getLast? ≠ some '\r'

/-- Lines put together with line feeds are the lines of what comes of it, whether or not there is a
line feed behind the last of them. -/
theorem lines_intercalate {l : List Char} {ls : List (List Char)}
    (h : ∀ k ∈ l :: ls, IsLine k) {ending : List Char} (hending : ending = [] ∨ ending = ['\n']) :
    lines (['\n'].intercalate (l :: ls) ++ ending) = l :: ls := by
  have hnewline : ∀ k ∈ l :: ls, ∀ c ∈ k, (c == '\n') = false := fun k hk => (h k hk).no_newline
  have hreturn : ∀ k ∈ l :: ls, k.getLast? ≠ some '\r' := fun k hk => (h k hk).no_return
  rcases hending with rfl | rfl
  · obtain ⟨ended, last, hall⟩ : ∃ ended last, l :: ls = ended ++ [last] :=
      ⟨_, _, (List.dropLast_concat_getLast (List.cons_ne_nil l ls)).symm⟩
    have hlast : last ≠ [] := (h last (hall ▸ List.mem_append_right ended (by simp))).ne_nil
    have hfields := fields_intercalate l ls hnewline
    rw [List.append_nil, lines_eq (hfields.trans hall), map_dropReturn fun k hk =>
      hreturn k (hall ▸ List.mem_append_left [last] hk), if_neg (by simpa using hlast), hall]
  · -- the field behind the last line feed is empty and makes no line
    have hfields : fields (· == '\n') (['\n'].intercalate (l :: ls) ++ ['\n']) =
        l :: ls ++ [[]] := by
      rw [intercalate_concat]
      refine fields_intercalate l (ls ++ [[]]) fun k hk => ?_
      rcases List.mem_append.mp (by simpa using hk : k ∈ (l :: ls) ++ [[]]) with hk | hk
      · exact hnewline k hk
      · rw [List.mem_singleton.mp hk]
        exact fun c hc => absurd hc List.not_mem_nil
    rw [lines_eq hfields, map_dropReturn hreturn]
    exact List.append_nil _

end Text

namespace Rose

mutual

/-- What comes behind the written form of a constituent is left as it is. -/
theorem writeOnto_append (k k' : List Char) : ∀ c : Constituent,
    c.writeOnto (k ++ k') = c.writeOnto k ++ k'
  | .node l [] => by rw [writeOnto, writeOnto, List.append_assoc]
  | .node l (c :: cs) => by
    have hchildren := writeAllOnto_append (')' :: k) k' (c :: cs)
    rw [List.cons_append] at hchildren
    rw [writeOnto, writeOnto, hchildren, List.cons_append, List.append_assoc]

theorem writeAllOnto_append (k k' : List Char) : ∀ cs : List Constituent,
    writeAllOnto (k ++ k') cs = writeAllOnto k cs ++ k'
  | [] => by rw [writeAllOnto, writeAllOnto]
  | c :: cs => by
    rw [writeAllOnto, writeAllOnto, writeAllOnto_append, writeOnto_append, List.cons_append]

end

theorem writeOnto_eq (k : List Char) (c : Constituent) : c.writeOnto k = c.writeOnto [] ++ k := by
  rw [← writeOnto_append, List.nil_append]

theorem writeAllOnto_eq (k : List Char) (cs : List Constituent) :
    writeAllOnto k cs = writeAllOnto [] cs ++ k := by
  rw [← writeAllOnto_append, List.nil_append]

/-- What stands between the parentheses of a node with children. -/
def inner (l : Label) (cs : List Constituent) : List Char := l.toList ++ writeAllOnto [] cs

theorem written_inner (l : Label) (c : Constituent) (cs : List Constituent) :
    written (.node l (c :: cs)) = '(' :: (inner l (c :: cs) ++ [')']) := by
  rw [written, writeOnto, writeAllOnto_eq, ← List.append_assoc]
  rfl

end Rose

namespace Bracket

open Rose

/-! ## Inside parentheses -/

/-- A reader inside parentheses takes up a text whole, and is as deep behind it as before. -/
def Inside (w : List Char) : Prop :=
  ∀ (line : Nat) (r : Reader) (k : List Char), 0 < r.depth →
    r.scan line (w ++ k) = ({ r with pending := w.reverse ++ r.pending } : Reader).scan line k

section scan

variable {line : Nat} {r : Reader} {c : Char} {cs : List Char}

/-- Inside parentheses every character is taken. -/
theorem scan_cons (hr : 0 < r.depth) :
    r.scan line (c :: cs) =
      { (r.push c).1.scan line cs with
        groups := (r.push c).2.toList ++ ((r.push c).1.scan line cs).groups } := by
  have hdepth : (r.depth == 0) = false := by
    rw [beq_eq_false_iff_ne]
    omega
  rw [Reader.scan, hdepth, Bool.false_and, if_neg Bool.false_ne_true, if_neg Bool.false_ne_true]

/-- A character that is no parenthesis is added to what is pending. -/
theorem scan_plain (hr : 0 < r.depth) (hopen : c ≠ '(') (hclose : c ≠ ')') :
    r.scan line (c :: cs) = ({ r with pending := c :: r.pending } : Reader).scan line cs := by
  have hpush : r.push c = ({ r with pending := c :: r.pending }, none) := by
    rw [Reader.push, if_neg (by simpa using hopen), if_neg (by simpa using hclose)]
  rw [scan_cons hr, hpush]
  rfl

theorem scan_opening (hr : 0 < r.depth) :
    r.scan line ('(' :: cs) =
      ({ r with pending := '(' :: r.pending, depth := r.depth + 1 } : Reader).scan line cs := by
  rw [scan_cons hr]
  rfl

/-- A closing parenthesis that is not the last one. -/
theorem scan_closing (hr : 1 < r.depth) :
    r.scan line (')' :: cs) =
      ({ r with pending := ')' :: r.pending, depth := r.depth - 1 } : Reader).scan line cs := by
  have hpush : r.push ')' =
      ({ r with pending := ')' :: r.pending, depth := r.depth - 1 }, none) := by
    have hdeep : ¬ r.depth ≤ 1 := by omega
    rw [Reader.push, if_neg (by decide), if_pos (by decide), if_neg hdeep]
  rw [scan_cons (by omega), hpush]
  rfl

end scan

theorem inside_nil : Inside [] := fun _ _ _ _ => rfl

theorem Inside.append {w w' : List Char} (h : Inside w) (h' : Inside w') : Inside (w ++ w') := by
  intro line r k hr
  have hsecond := h' line { r with pending := w.reverse ++ r.pending } k hr
  rw [List.append_assoc, h line r _ hr, hsecond, List.reverse_append, List.append_assoc]

theorem inside_of_plain {w : List Char} (h : ∀ c ∈ w, c ≠ '(' ∧ c ≠ ')') : Inside w := by
  intro line r k hr
  induction w generalizing r with
  | nil => rfl
  | cons c w ih =>
    obtain ⟨hopen, hclose⟩ := h c (List.mem_cons_self ..)
    have hw := ih (fun x hx => h x (List.mem_cons_of_mem c hx))
      { r with pending := c :: r.pending } hr
    rw [List.cons_append, scan_plain hr hopen hclose, hw, List.reverse_cons, List.append_assoc]
    rfl

/-- Parentheses around a text that is taken up whole are taken up with it. -/
theorem Inside.brackets {w : List Char} (h : Inside w) : Inside ('(' :: (w ++ [')'])) := by
  intro line r k hr
  have hw := h line { r with pending := '(' :: r.pending, depth := r.depth + 1 } (')' :: k)
    (Nat.succ_pos _)
  have hclosing : 1 < r.depth + 1 := by omega
  rw [List.cons_append, List.append_assoc, List.singleton_append, scan_opening hr, hw,
    scan_closing hclosing]
  simp only [Nat.add_sub_cancel, List.reverse_cons, List.reverse_append, List.reverse_nil,
    List.nil_append, List.append_assoc, List.singleton_append]
  rfl

theorem inside_label {l : Label} (h : l.IsAtom) : Inside l.toList := by
  refine inside_of_plain fun c hc => ⟨?_, ?_⟩
  · rintro rfl
    exact absurd (h '(' hc) (by decide)
  · rintro rfl
    exact absurd (h ')' hc) (by decide)

mutual

/-- **A constituent whose labels are atoms is taken up whole.** -/
theorem inside_writeOnto : ∀ c : Constituent, c.HasAtoms → Inside (c.writeOnto [])
  | .node l [], h => by
    rw [writeOnto, List.append_nil]
    exact inside_label (hasAtoms_node.mp h).1
  | .node l (c :: cs), h => by
    obtain ⟨hl, hcs⟩ := hasAtoms_node.mp h
    have hwritten : (Rose.node l (c :: cs)).writeOnto [] = '(' :: (inner l (c :: cs) ++ [')']) :=
      written_inner l c cs
    rw [hwritten]
    exact ((inside_label hl).append (inside_writeAllOnto (c :: cs) hcs)).brackets

theorem inside_writeAllOnto : ∀ cs : List Constituent, (∀ c ∈ cs, c.HasAtoms) →
    Inside (writeAllOnto [] cs)
  | [], _ => inside_nil
  | c :: cs, h => by
    have hspace : Inside [' '] := inside_of_plain (by simp)
    have hc := inside_writeOnto c (h c (List.mem_cons_self ..))
    have hcs := inside_writeAllOnto cs fun d hd => h d (List.mem_cons_of_mem c hd)
    rw [writeAllOnto, writeOnto_eq]
    exact hspace.append (hc.append hcs)

end

/-! ## Lines of trees -/

/-- A reader between two trees. -/
structure Reader.Idle (r : Reader) : Prop where
  pending : r.pending = []
  depth : r.depth = 0

/-- A text in parentheses that is taken up whole is one group. -/
theorem scan_brackets {r : Reader} (hr : r.Idle) (line : Nat) {w : List Char} (hw : Inside w) :
    r.scan line ('(' :: (w ++ [')'])) = ⟨⟨[], line, 0⟩, [(line, '(' :: (w ++ [')']))], none⟩ := by
  obtain ⟨pending, pendingLine, depth⟩ := r
  obtain ⟨rfl, rfl⟩ : pending = [] ∧ depth = 0 := ⟨hr.pending, hr.depth⟩
  have hinside := hw line ⟨['('], line, 1⟩ [')'] Nat.one_pos
  have hopening : Reader.scan line ⟨[], pendingLine, 0⟩ ('(' :: (w ++ [')'])) =
      Reader.scan line ⟨['('], line, 1⟩ (w ++ [')']) := rfl
  have hclosing : Reader.scan line ⟨w.reverse ++ ['('], line, 1⟩ [')'] =
      ⟨⟨[], line, 0⟩, [(line, (')' :: (w.reverse ++ ['('])).reverse)], none⟩ := rfl
  rw [hopening, hinside, hclosing]
  simp

/-- A line that begins with neither a parenthesis nor a blank is an error. -/
theorem scan_stray {r : Reader} (hr : r.Idle) (line : Nat) {c : Char} (cs : List Char)
    (hopen : c ≠ '(') (hblank : Text.isBlank c = false) :
    r.scan line (c :: cs) = ⟨⟨[], r.pendingLine, 0⟩, [], some ⟨line, .stray c⟩⟩ := by
  have hstray : (r.depth == 0 && c != '(') = true := by
    rw [hr.depth, bne_iff_ne.mpr hopen]
    rfl
  rw [Reader.scan, if_pos hstray, hblank, if_neg Bool.false_ne_true]

/-- The item that a stream reader gives for a line on which a tree is written. -/
def lineItem (line : Nat) : Option Constituent → Item
  | some (.node l []) => .error ⟨line, .stray (l.toList.headD ' ')⟩
  | c => .ok (.ofConstituent c)

/-- What a line with a tree that can be read by itself comes to. -/
theorem scan_render {c : Option Constituent} (hc : parse (render c).toList = .ok c) {r : Reader}
    (hr : r.Idle) (line : Nat) : ∃ s, r.scan line (render c).toList = s ∧ s.reader.Idle ∧
      (s.error.map Except.error).toList ++ s.groups.map readGroup = [lineItem line c] := by
  -- a line in parentheses is one group, and the group is read as the line is
  have hgroup : ∀ w, Inside w → (render c).toList = '(' :: (w ++ [')']) →
      ∃ s, r.scan line (render c).toList = s ∧ s.reader.Idle ∧
        (s.error.map Except.error).toList ++ s.groups.map readGroup = [.ok (.ofConstituent c)] := by
    intro w hw htext
    rw [htext] at hc ⊢
    refine ⟨_, scan_brackets hr line hw, ⟨rfl, rfl⟩, ?_⟩
    show [readGroup (line, '(' :: (w ++ [')']))] = _
    rw [readGroup, hc]
  cases c with
  | none => exact hgroup [] inside_nil rfl
  | some c =>
    have hwritten : (render (some c)).toList = c.written := String.toList_ofList
    rw [hwritten] at hc
    obtain ⟨hatoms, hne⟩ := parse_some hc
    obtain ⟨l, cs⟩ := c
    obtain ⟨hl, hcs⟩ := hasAtoms_node.mp hatoms
    cases cs with
    | cons d ds =>
      have hinner : Inside (inner l (d :: ds)) :=
        (inside_label hl).append (inside_writeAllOnto (d :: ds) hcs)
      exact hgroup _ hinner (hwritten.trans (written_inner l d ds))
    | nil =>
      have htext : written (.node l []) = l.toList := List.append_nil _
      rw [hwritten, htext]
      cases hchars : l.toList with
      | nil => exact absurd (by rw [String.toList_eq_nil_iff.mp hchars]) hne
      | cons x xs =>
        have hx := hl x (by rw [hchars]; exact List.mem_cons_self ..)
        rw [isDelimiter, Bool.or_eq_false_iff, Bool.or_eq_false_iff] at hx
        have hopen : x ≠ '(' := beq_eq_false_iff_ne.mp hx.1.1
        refine ⟨_, scan_stray hr line xs hopen hx.2, ⟨rfl, rfl⟩, ?_⟩
        rw [lineItem, hchars]
        rfl

/-- **Every line with a tree gives one item.** -/
theorem itemsFrom_render : ∀ {cs : List (Option Constituent)},
    (∀ c ∈ cs, parse (render c).toList = .ok c) → ∀ {r : Reader}, r.Idle → ∀ n : Nat,
      itemsFrom n r (cs.map fun c => some (render c).toList) =
        (cs.zipIdx n).map fun x => lineItem x.2 x.1
  | [], _, r, hr, n => by
    rw [List.map_nil, itemsFrom, hr.pending]
    rfl
  | c :: cs, hcs, r, hr, n => by
    obtain ⟨s, hscan, hidle, hitem⟩ := scan_render (hcs c (List.mem_cons_self ..)) hr n
    have hrest := itemsFrom_render (fun d hd => hcs d (List.mem_cons_of_mem c hd)) hidle (n + 1)
    rw [List.map_cons, itemsFrom, hscan, hrest, hitem, List.zipIdx_cons, List.map_cons,
      List.singleton_append]

end Bracket

namespace Rose

/-- Neither end of a line. -/
def InLine (c : Char) : Prop := c ≠ '\n' ∧ c ≠ '\r'

instance (c : Char) : Decidable (InLine c) := inferInstanceAs (Decidable (_ ∧ _))

theorem inLine_label {l : Label} (hl : l.IsAtom) : ∀ c ∈ l.toList, InLine c := by
  refine fun c hc => ⟨?_, ?_⟩
  · rintro rfl
    exact absurd (hl '\n' hc) (by decide)
  · rintro rfl
    exact absurd (hl '\r' hc) (by decide)

mutual

/-- A constituent whose labels are atoms is written on one line. -/
theorem inLine_writeOnto {k : List Char} (hk : ∀ x ∈ k, InLine x) : ∀ c : Constituent, c.HasAtoms →
    ∀ x ∈ c.writeOnto k, InLine x
  | .node l [], h => by
    rw [writeOnto, List.forall_mem_append]
    exact ⟨inLine_label (hasAtoms_node.mp h).1, hk⟩
  | .node l (c :: cs), h => by
    obtain ⟨hl, hcs⟩ := hasAtoms_node.mp h
    have hclosing : ∀ x ∈ ')' :: k, InLine x :=
      List.forall_mem_cons.mpr ⟨by decide, hk⟩
    rw [writeOnto, List.forall_mem_cons, List.forall_mem_append]
    exact ⟨by decide, inLine_label hl, inLine_writeAllOnto hclosing (c :: cs) hcs⟩

theorem inLine_writeAllOnto {k : List Char} (hk : ∀ x ∈ k, InLine x) : ∀ cs : List Constituent,
    (∀ c ∈ cs, c.HasAtoms) → ∀ x ∈ writeAllOnto k cs, InLine x
  | [], _ => by
    rw [writeAllOnto]
    exact hk
  | c :: cs, h => by
    have hrest := inLine_writeAllOnto hk cs fun d hd => h d (List.mem_cons_of_mem c hd)
    rw [writeAllOnto, List.forall_mem_cons]
    exact ⟨by decide, inLine_writeOnto hrest c (h c (List.mem_cons_self ..))⟩

end

end Rose

namespace Bracket

open Rose

/-- The text of a tree that can be read by itself is a line. -/
theorem isLine_render {c : Option Constituent} (hc : parse (render c).toList = .ok c) :
    Text.IsLine (render c).toList := by
  cases c with
  | none => exact ⟨by simp [render], by simp [render], by simp [render]⟩
  | some c =>
    have hwritten : (render (some c)).toList = c.written := String.toList_ofList
    rw [hwritten] at hc ⊢
    have hline : ∀ x ∈ c.written, InLine x :=
      inLine_writeOnto (fun x hx => absurd hx List.not_mem_nil) c (parse_some hc).1
    refine ⟨fun hnil => ?_, fun x hx => beq_eq_false_iff_ne.mpr (hline x hx).1, fun hlast => ?_⟩
    · rw [hnil] at hc
      have hempty : (parse []).toOption = none := rfl
      exact absurd (hc ▸ hempty) (by simp [Except.toOption])
    · exact (hline '\r' (List.mem_of_getLast? hlast)).2 rfl

/-- **A text with one tree on each line gives one item for each tree**, which is an error for the
trees of a single node and the tree itself for the others. -/
theorem itemsOfText_lines {cs : List (Option Constituent)}
    (hcs : ∀ c ∈ cs, parse (render c).toList = .ok c) {ending : String}
    (hending : ending = "" ∨ ending = "\n") :
    itemsOfText ("\n".intercalate (cs.map render) ++ ending) =
      (cs.zipIdx 1).map fun x => lineItem x.2 x.1 := by
  have hchars : ("\n".intercalate (cs.map render) ++ ending).toList =
      ['\n'].intercalate (cs.map fun c => (render c).toList) ++ ending.toList := by
    rw [String.toList_append, String.toList_intercalate, List.map_map]
    rfl
  have hend : ending.toList = [] ∨ ending.toList = ['\n'] := by
    rcases hending with rfl | rfl
    · exact .inl rfl
    · exact .inr rfl
  rw [itemsOfText, hchars]
  cases cs with
  | nil =>
    -- there is no tree, and at most an empty line
    rcases hend with hend | hend <;> rw [hend] <;> rfl
  | cons c cs =>
    have hlines : ∀ k ∈ (c :: cs).map fun c => (render c).toList, Text.IsLine k := by
      intro k hk
      obtain ⟨d, hd, rfl⟩ := List.mem_map.mp hk
      exact isLine_render (hcs d hd)
    rw [List.map_cons] at hlines ⊢
    rw [Text.lines_intercalate hlines hend, ← itemsFrom_render hcs (r := {}) ⟨rfl, rfl⟩ 1, items,
      List.map_cons, List.map_map, List.map_cons]
    rfl

theorem lineItem_of_ne {c : Option Constituent} (hc : ∀ l, c ≠ some (.node l [])) (line : Nat) :
    lineItem line c = .ok (.ofConstituent c) := by
  match c, hc with
  | none, _ => rfl
  | some (.node l []), hc => exact absurd rfl (hc l)
  | some (.node _ (_ :: _)), _ => rfl

theorem filterMap_toOption_ok {ε α : Type} (xs : List α) :
    (xs.map (Except.ok (ε := ε))).filterMap Except.toOption = xs := by
  rw [List.filterMap_map]
  exact List.filterMap_some

end Bracket

namespace Tree

open Constituency.Bracket Rose

/-- **When trees come back from their lines.** Let each of some trees come back when its own text is
read. From the text that has theirs on its lines, with or without a line feed at the end, a stream
reader and a treebank get those trees, in order and without an error, exactly if none of them is a
single node. -/
theorem lines_read_back_iff (ts : List Tree)
    (hts : ∀ t ∈ ts, ∃ u, parseTree t.render = .ok u ∧ u.whole = t.whole) (ending : String)
    (hending : ending = "" ∨ ending = "\n") :
    let text := "\n".intercalate (ts.map Tree.render) ++ ending
    (∃ us : List Tree, itemsOfText text = us.map .ok ∧ (Treebank.text text).trees = us ∧
        us.map Tree.whole = ts.map Tree.whole) ↔
      ∀ t ∈ ts, ∀ l, t.whole ≠ some (.node l []) := by
  intro text
  have hparse : ∀ c ∈ ts.map Tree.whole, parse (Bracket.render c).toList = .ok c := by
    intro c hc
    obtain ⟨t, ht, rfl⟩ := List.mem_map.mp hc
    obtain ⟨u, hu, hwhole⟩ := hts t ht
    obtain ⟨c, hc, rfl⟩ := parseTree_iff.mp hu
    rw [whole_ofConstituent] at hwhole
    show parse t.render.toList = .ok t.whole
    rw [hc, hwhole]
  have hitems : itemsOfText text =
      ((ts.map Tree.whole).zipIdx 1).map fun x => lineItem x.2 x.1 := by
    rw [← itemsOfText_lines hparse hending, List.map_map]
    rfl
  have hnumbered := List.zipIdx_map_fst 1 (ts.map Tree.whole)
  constructor
  · rintro ⟨us, hus, -, -⟩ t ht l hleaf
    -- the line of a single node is an error
    have hmem : t.whole ∈ ts.map Tree.whole := List.mem_map_of_mem ht
    rw [← hnumbered] at hmem
    obtain ⟨⟨c, n⟩, hn, hc⟩ := List.mem_map.mp hmem
    have herror : lineItem n c ∈ us.map Except.ok := by
      rw [← hus, hitems]
      exact List.mem_map_of_mem hn
    obtain ⟨u, -, hu⟩ := List.mem_map.mp herror
    obtain rfl : c = some (.node l []) := hc.trans hleaf
    exact absurd hu (by simp [lineItem])
  · intro hinner
    have hok : itemsOfText text = ((ts.map Tree.whole).map ofConstituent).map .ok := by
      conv_rhs => rw [← hnumbered]
      rw [hitems, List.map_map, List.map_map]
      refine List.map_congr_left fun ⟨c, n⟩ hn => lineItem_of_ne ?_ n
      have hc : c ∈ ts.map Tree.whole := by
        rw [← hnumbered]
        exact List.mem_map_of_mem hn
      obtain ⟨t, ht, rfl⟩ := List.mem_map.mp hc
      exact hinner t ht
    refine ⟨_, hok, ?_, ?_⟩
    · show [text].flatMap Treebank.treesOf = _
      rw [List.flatMap_singleton, Treebank.treesOf, hok, filterMap_toOption_ok]
    · rw [List.map_map]
      conv_rhs => rw [← List.map_id (ts.map Tree.whole)]
      exact List.map_congr_left fun c _ => whole_ofConstituent c

/-- Three trees that come back from their lines: one without nodes, one with a root without a label,
and a plain one. -/
theorem lines_read_back_unlabelled :
    let ts := [ofConstituent none,
      ofConstituent (some (.node "" [.node "S" [.node "a" []], .node "b" []])),
      ofConstituent (some (.node "S" [.node "x" []]))]
    "\n".intercalate (ts.map Tree.render) = "()\n( (S a) b)\n(S x)" ∧
      ∃ us : List Tree, itemsOfText "()\n( (S a) b)\n(S x)" = us.map .ok ∧
        (Treebank.text "()\n( (S a) b)\n(S x)").trees = us ∧
        us.map Tree.whole = ts.map Tree.whole := by
  intro ts
  have hread : ∀ t ∈ ts, parseTree t.render = .ok (ofConstituent t.whole) := by
    simp only [ts, List.forall_mem_cons]
    exact ⟨rfl, rfl, rfl, fun _ h => absurd h List.not_mem_nil⟩
  have htext : "\n".intercalate (ts.map Tree.render) = "()\n( (S a) b)\n(S x)" := by decide
  have hinner : ∀ t ∈ ts, ∀ l, t.whole ≠ some (.node l []) := by
    simp only [ts, List.forall_mem_cons, whole_ofConstituent]
    exact ⟨by simp, by simp, by simp, fun _ h => absurd h List.not_mem_nil⟩
  obtain ⟨us, hitems, htrees, hwhole⟩ := (lines_read_back_iff ts
    (fun t ht => ⟨_, hread t ht, whole_ofConstituent _⟩) "" (.inl rfl)).mpr hinner
  rw [String.append_empty, htext] at hitems htrees
  exact ⟨htext, us, hitems, htrees, hwhole⟩

/-- The tree with the single node `word` is written without parentheses. That can be read by itself,
but as the line of a stream it is an error at its first letter; so not all trees that come back from
their own texts come back from their lines. -/
theorem line_of_word_is_stray :
    let t := ofConstituent (some (.node "word" []))
    t.render = "word" ∧ parseTree "word" = .ok t ∧
      itemsOfText "word" = [.error ⟨1, .stray 'w'⟩] ∧ (Treebank.text "word").trees = [] ∧
      ¬ ∀ ts : List Tree, (∀ t ∈ ts, ∃ u, parseTree t.render = .ok u ∧ u.whole = t.whole) →
        ∃ us : List Tree, itemsOfText ("\n".intercalate (ts.map Tree.render)) = us.map .ok ∧
          us.map Tree.whole = ts.map Tree.whole := by
  intro t
  have hread : parseTree "word" = .ok t := rfl
  have hrender : t.render = "word" := by decide
  have hitems : itemsOfText "word" = [.error ⟨1, .stray 'w'⟩] := rfl
  refine ⟨hrender, hread, hitems, rfl, fun hall => ?_⟩
  have ht : ∀ u ∈ [t], ∃ v, parseTree u.render = .ok v ∧ v.whole = u.whole := by
    intro u hu
    obtain rfl := List.mem_singleton.mp hu
    exact ⟨t, by rw [hrender, hread], rfl⟩
  obtain ⟨us, hus, -⟩ := hall [t] ht
  have htext : "\n".intercalate ([t].map Tree.render) = "word" := by decide
  rw [htext, hitems] at hus
  cases us with
  | nil => exact absurd hus (by simp)
  | cons u us => exact absurd (List.cons.inj hus).1 (by simp)

end Tree

end Constituency
