import Constituency.Proofs.Bracket.Lines
import Constituency.Proofs.Bracket.Parts

/-!
# A reader divides its stream

Between two characters a reader holds the piece of a tree that has begun, or nothing (`Tracks`).
From there the rest of a line is scanned in one of six ways (`Scanned`), which is all the other
modules need to know about the scanner. It follows that the whole stream is divided into parts and
that nothing is lost: line by line the reader has the trees and the error of the parts that end
there (`Divided.exists_found`). It only gives the error of a line before the trees of that line, so
its items are in the order of the text exactly if no line has both (`itemsFrom_eq_iff`).
-/

namespace Constituency.Bracket

/-! ## What a reader holds -/

/-- A reader inside a tree holds the piece of it that has been read. -/
structure Holds (r : Reader) (piece : List Symbol) : Prop where
  begun : Begun r.depth (textOf piece)
  pending : r.pending = (textOf piece).reverse
  first : piece.head?.bind Symbol.char = some '('
  line : firstLine piece = r.pendingLine

/-- What a reader holds: nothing between trees, and else a piece. -/
inductive Tracks : Reader → List Symbol → Prop where
  | idle {r : Reader} : r.Idle → Tracks r []
  | begun {r : Reader} {piece : List Symbol} : Holds r piece → Tracks r piece

/-- A reader holds nothing at first. -/
theorem tracks_start : Tracks {} [] := .idle ⟨rfl, rfl⟩

section step

variable {n : Nat} {r : Reader} {piece : List Symbol} {c : Char} {cs : List Char}

theorem textOf_concat (piece : List Symbol) (n : Nat) (c : Char) :
    textOf (piece ++ [⟨n, some c⟩]) = textOf piece ++ [c] :=
  textOf_append piece _

theorem firstLine_append (h : piece.head?.bind Symbol.char = some '(') (rest : List Symbol) :
    firstLine (piece ++ rest) = firstLine piece := by
  cases piece with
  | nil => cases h
  | cons s piece => rfl

/-- A further symbol that has no text leaves a reader as it is. -/
theorem Holds.undecoded (h : Holds r piece) (n : Nat) : Holds r (piece ++ [⟨n, none⟩]) := by
  have htext : textOf (piece ++ [⟨n, none⟩]) = textOf piece :=
    (textOf_append piece _).trans (List.append_nil _)
  refine ⟨?_, ?_, head?_append_bind h.first, (firstLine_append h.first _).trans h.line⟩
  · rw [htext]
    exact h.begun
  · rw [htext]
    exact h.pending

/-- One more character that leaves a parenthesis open. -/
theorem Holds.push {depth : Nat} (h : Holds r piece)
    (hdepth : depth + [c].count ')' = r.depth + [c].count '(') (hpos : 0 < depth) :
    Holds ⟨c :: r.pending, r.pendingLine, depth⟩ (piece ++ [⟨n, some c⟩]) := by
  refine ⟨?_, ?_, head?_append_bind h.first, (firstLine_append h.first _).trans h.line⟩
  · rw [textOf_concat]
    exact h.begun.push hdepth hpos
  · rw [textOf_concat, List.reverse_append, h.pending]
    rfl

/-- With the parenthesis that ends it a piece is a tree. -/
theorem Holds.isTree (h : Holds r piece) (hdepth : r.depth = 1) (n : Nat) :
    IsTree (piece ++ [⟨n, some ')'⟩]) where
  group := by
    have hbegun := h.begun
    rw [hdepth] at hbegun
    rw [textOf_concat]
    exact hbegun.close
  first := head?_append_bind h.first
  last := by
    rw [List.getLast?_concat]
    rfl

/-- The parenthesis that begins a tree. -/
theorem scan_begin (hr : r.Idle) (line : Nat) :
    r.scan line ('(' :: cs) = Reader.scan line ⟨['('], line, 1⟩ cs := by
  obtain ⟨pending, pendingLine, depth⟩ := r
  obtain ⟨rfl, rfl⟩ : pending = [] ∧ depth = 0 := ⟨hr.pending, hr.depth⟩
  rfl

/-- The parenthesis that ends a tree. -/
theorem scan_end {line : Nat} (hr : r.depth = 1) :
    r.scan line (')' :: cs) =
      let s := Reader.scan line ⟨[], r.pendingLine, 0⟩ cs
      { s with groups := (r.pendingLine, (')' :: r.pending).reverse) :: s.groups } := by
  have hpush : r.push ')' = (⟨[], r.pendingLine, 0⟩,
      some (r.pendingLine, (')' :: r.pending).reverse)) := by
    rw [Reader.push, if_neg (by decide), if_pos (by decide), if_pos (Nat.le_of_eq hr)]
  rw [scan_cons (hr ▸ Nat.one_pos), hpush]
  rfl

/-- A blank between trees. -/
theorem scan_blank (hr : r.Idle) (line : Nat) (hc : Text.isBlank c = true) :
    r.scan line (c :: cs) = r.scan line cs := by
  have hopening : c ≠ '(' := by
    rintro rfl
    cases hc
  rw [Reader.scan, hr.depth, bne_iff_ne.mpr hopening, if_pos (by decide), if_pos hc]

end step

/-! ## Scanning a line -/

/-- How the rest of line `n` is scanned, with the piece that the reader holds. -/
inductive Scanned (n : Nat) : List Symbol → List Char → Scan → Prop where
  | ended {r : Reader} : r.Idle → Scanned n [] [] ⟨r, [], none⟩
  | carried {r : Reader} {piece : List Symbol} : Tracks r (piece ++ [⟨n, some '\n'⟩]) →
    Scanned n piece [] ⟨r, [], none⟩
  | blank {c : Char} {cs : List Char} {s : Scan} : Text.isBlank c = true → Scanned n [] cs s →
    Scanned n [] (c :: cs) s
  | stray {r : Reader} {c : Char} {cs : List Char} : Text.isBlank c = false → c ≠ '(' → r.Idle →
    Scanned n [] (c :: cs) ⟨r, [], some ⟨n, .stray c⟩⟩
  | inside {piece : List Symbol} {c : Char} {cs : List Char} {s : Scan} :
    Scanned n (piece ++ [⟨n, some c⟩]) cs s → Scanned n piece (c :: cs) s
  | closed {piece whole : List Symbol} {c : Char} {cs : List Char} {s : Scan} :
    whole = piece ++ [⟨n, some c⟩] → IsTree whole → Scanned n [] cs s →
    Scanned n piece (c :: cs)
      { s with groups := (firstLine whole, textOf whole) :: s.groups }

/-- **Every line is scanned in this way.** -/
theorem Tracks.scanned {n : Nat} : ∀ (cs : List Char) {r : Reader} {piece : List Symbol},
    Tracks r piece → Scanned n piece cs (r.scan n cs) := by
  intro cs
  induction cs with
  | nil =>
    intro r piece h
    cases h with
    | idle hidle =>
      rw [Reader.scan, if_neg (Nat.not_lt.mpr (Nat.le_of_eq hidle.depth))]
      exact .ended hidle
    | begun hholds =>
      rw [Reader.scan, if_pos hholds.begun.pos]
      exact .carried (.begun (hholds.push rfl hholds.begun.pos))
  | cons c cs ih =>
    intro r piece h
    cases h with
    | idle hidle =>
      by_cases hopening : c = '('
      · subst hopening
        rw [scan_begin hidle]
        exact .inside (ih (.begun ⟨.first, rfl, rfl, rfl⟩))
      · by_cases hblank : Text.isBlank c = true
        · rw [scan_blank hidle n hblank]
          exact .blank hblank (ih (.idle hidle))
        · rw [Bool.not_eq_true] at hblank
          rw [scan_stray hidle n cs hopening hblank]
          exact .stray hblank hopening ⟨rfl, rfl⟩
    | begun hholds =>
      have hpos := hholds.begun.pos
      by_cases hopening : c = '('
      · subst hopening
        rw [scan_opening hpos]
        exact .inside (ih (.begun (hholds.push rfl (Nat.succ_pos _))))
      · by_cases hclosing : c = ')'
        · subst hclosing
          by_cases hdeep : 1 < r.depth
          · rw [scan_closing hdeep]
            have hdepth : r.depth - 1 + 1 = r.depth := Nat.sub_add_cancel hpos
            exact .inside (ih (.begun (hholds.push hdepth (by omega))))
          · have hlast : r.depth = 1 := by omega
            have hgroup : (r.pendingLine, (')' :: r.pending).reverse) =
                (firstLine (piece ++ [⟨n, some ')'⟩]), textOf (piece ++ [⟨n, some ')'⟩])) := by
              rw [firstLine_append hholds.first, hholds.line, textOf_concat, hholds.pending,
                List.reverse_cons, List.reverse_reverse]
            rw [scan_end hlast, hgroup]
            exact .closed rfl (hholds.isTree hlast n) (ih (.idle ⟨rfl, rfl⟩))
        · have hnone : ∀ x, c ≠ x → [c].count x = 0 := fun x hx =>
            List.count_eq_zero.mpr (by simpa using hx.symm)
          have hdepth : r.depth + [c].count ')' = r.depth + [c].count '(' := by
            rw [hnone _ hopening, hnone _ hclosing]
          rw [scan_plain hpos hopening hclosing]
          exact .inside (ih (.begun (hholds.push hdepth hpos)))

namespace Scanned

variable {n : Nat} {piece : List Symbol} {cs : List Char} {s : Scan}

/-- What is queued is a group. -/
theorem isGroup (h : Scanned n piece cs s) : ∀ g ∈ s.groups, IsGroup g.2 := by
  induction h with
  | ended | carried | stray => exact fun _ hg => absurd hg List.not_mem_nil
  | blank _ _ ih | inside _ ih => exact ih
  | closed _ hwhole _ ih => exact List.forall_mem_cons.mpr ⟨hwhole.group, ih⟩

/-- The reader holds a piece again behind the line. -/
theorem tracks (h : Scanned n piece cs s) : ∃ piece', Tracks s.reader piece' := by
  induction h with
  | ended hidle => exact ⟨_, .idle hidle⟩
  | carried htracks => exact ⟨_, htracks⟩
  | stray _ _ hidle => exact ⟨_, .idle hidle⟩
  | blank _ _ ih | inside _ ih | closed _ _ _ ih => exact ih

/-- The only error of a line is a character that is astray, and nothing is held behind it. -/
theorem error_eq (h : Scanned n piece cs s) {e : ParseError} (he : s.error = some e) :
    (∃ c, e = ⟨n, .stray c⟩) ∧ s.reader.Idle := by
  induction h with
  | ended | carried => cases he
  | stray _ _ hidle => exact ⟨⟨_, (Option.some.inj he).symm⟩, hidle⟩
  | blank _ _ ih | inside _ ih | closed _ _ _ ih => exact ih he

end Scanned

/-! ## What is found -/

/-- An error, or a tree with the line on which it ends. -/
abbrev Found := Except ParseError (Nat × Tree)

/-- What is found without the line. -/
def itemOf (f : Found) : Item := f.map Prod.snd

/-- A tree is found on the line on which it ends. -/
def foundOn (n : Nat) (i : Item) : Found := i.map fun t => (n, t)

/-- The error of an item. -/
def error? : Item → Option ParseError
  | .error e => some e
  | .ok _ => none

/-- What there is to find in a part, in the order of the text. -/
def Part.found : Part → List Found
  | .tree piece => (undecoded piece).map .error ++
      [foundOn (finalLine piece) (parseTree (String.ofList (textOf piece)))]
  | p => p.errors.map .error

theorem Part.found_unclosed (piece : List Symbol) : (unclosed piece).found =
    (undecoded piece).map .error ++ [.error ⟨firstLine piece, .endsInsideTree⟩] :=
  List.map_append

/-- What is found on a line, in the order of the text. -/
def foundIn (n : Nat) (s : Scan) : List Found :=
  s.groups.map (fun g => foundOn n (readGroup g)) ++ (s.error.map Except.error).toList

/-- What is found on the lines from number `n` on, in the order of the text. -/
def foundFrom (n : Nat) (r : Reader) : List Line → List Found
  | [] => if (Text.trim r.pending).isEmpty then [] else [.error ⟨r.pendingLine, .endsInsideTree⟩]
  | none :: ls => .error ⟨n, .undecodable⟩ :: foundFrom (n + 1) r ls
  | some l :: ls =>
    foundIn n (r.scan n l) ++ foundFrom (n + 1) (r.scan n l).reader ls

theorem itemOf_foundOn (n : Nat) (i : Item) : itemOf (foundOn n i) = i := by
  cases i <;> rfl

/-- A group is read as its text is by itself. -/
theorem readGroup_of_isGroup {g : Nat × List Char} (hg : IsGroup g.2) :
    readGroup g = parseTree (String.ofList g.2) ∧ ∃ t, readGroup g = .ok t := by
  obtain ⟨c, hc⟩ := parse_group hg
  have hread : readGroup g = .ok (.ofConstituent c) := by rw [readGroup, hc]
  have htext : parseTree (String.ofList g.2) = .ok (.ofConstituent c) :=
    Tree.parseTree_iff.mpr ⟨c, by rw [String.toList_ofList, hc], rfl⟩
  exact ⟨hread.trans htext.symm, _, hread⟩

theorem Part.map_itemOf_found (p : Part) : p.found.map itemOf = p.items := by
  have herrors : ∀ es : List ParseError, (es.map (Except.error (α := Nat × Tree))).map itemOf =
      es.map .error := fun es => by
    rw [List.map_map]
    rfl
  cases p with
  | tree piece =>
    rw [found, List.map_append, herrors, List.map_singleton, itemOf_foundOn]
    rfl
  | between | stray | unclosed => exact (herrors _).trans (List.append_nil _).symm

theorem undecoded_concat (piece : List Symbol) (n : Nat) (c : Char) :
    undecoded (piece ++ [⟨n, some c⟩]) = undecoded piece := by
  rw [undecoded_append]
  exact List.append_nil _

/-- **A line divides what stands in front of it with it.** If all goes on well behind the line, the
parts that end on the line are what is found on it. -/
theorem Scanned.divides {n : Nat} {piece ss : List Symbol} {cs : List Char} {s : Scan}
    {found : List Found} (h : Scanned n piece cs s) (hlines : ∀ x ∈ ss, x.line ≠ n)
    (hrest : ∀ piece', Tracks s.reader piece' → ∃ ps, Divided (piece' ++ ss) ps ∧
      ps.flatMap Part.found = (undecoded piece').map .error ++ found) :
    ∃ ps, Divided (piece ++ (lineSymbols n (some cs) ++ ss)) ps ∧
      ps.flatMap Part.found = (undecoded piece).map .error ++ (foundIn n s ++ found) := by
  induction h with
  | ended hidle =>
    obtain ⟨ps, hdivided, hfound⟩ := hrest [] (.idle hidle)
    exact ⟨.between ⟨n, some '\n'⟩ :: ps,
      .cons (.between fun c hc => by rw [← Option.some.inj hc]; rfl) hdivided, hfound⟩
  | carried htracks =>
    obtain ⟨ps, hdivided, hfound⟩ := hrest _ htracks
    rw [List.append_assoc] at hdivided
    rw [undecoded_concat] at hfound
    exact ⟨ps, hdivided, hfound⟩
  | @blank c _ _ hblank _ ih =>
    obtain ⟨ps, hdivided, hfound⟩ := ih hrest
    exact ⟨.between ⟨n, some c⟩ :: ps,
      .cons (.between fun x hx => by rwa [← Option.some.inj hx]) hdivided, hfound⟩
  | @stray _ c cs hblank hopening hidle =>
    obtain ⟨ps, hdivided, hfound⟩ := hrest [] (.idle hidle)
    refine ⟨.stray n c (lineSymbols n (some cs)) :: ps, ?_, congrArg (_ :: ·) hfound⟩
    have hstray : (Part.stray n c (lineSymbols n (some cs))).Fits ss :=
      .stray hblank hopening (fun _ hs => line_of_mem_lineSymbols hs) hlines
    exact .cons hstray hdivided
  | inside _ ih =>
    obtain ⟨ps, hdivided, hfound⟩ := ih hrest
    rw [List.append_assoc] at hdivided
    rw [undecoded_concat] at hfound
    exact ⟨ps, hdivided, hfound⟩
  | @closed piece whole c cs s hwhole htree _ ih =>
    obtain ⟨ps, hdivided, hfound⟩ := ih hrest
    have hsymbols : (Part.tree whole).symbols ++ ([] ++ (lineSymbols n (some cs) ++ ss)) =
        piece ++ (lineSymbols n (some (c :: cs)) ++ ss) := by
      rw [Part.symbols, hwhole, List.append_assoc]
      rfl
    have hline : finalLine whole = n := by
      rw [hwhole, finalLine, List.getLast?_concat]
      rfl
    have hread : readGroup (firstLine whole, textOf whole) =
        parseTree (String.ofList (textOf whole)) :=
      (readGroup_of_isGroup (g := (firstLine whole, textOf whole)) htree.group).1
    refine ⟨.tree whole :: ps, hsymbols ▸ .cons (.tree htree) hdivided, ?_⟩
    rw [List.flatMap_cons, hfound, Part.found, hline, ← hread, List.append_assoc, hwhole,
      undecoded_concat]
    rfl

/-- **The reader divides its stream**, and what it finds is what the parts amount to. -/
theorem Divided.exists_found : ∀ (ls : List Line) (n : Nat) {r : Reader} {piece : List Symbol},
    Tracks r piece → ∃ ps, Divided (piece ++ symbolsFrom n ls) ps ∧
      ps.flatMap Part.found = (undecoded piece).map .error ++ foundFrom n r ls := by
  intro ls
  induction ls with
  | nil =>
    intro n r piece h
    rw [symbolsFrom, List.append_nil, foundFrom]
    cases h with
    | idle hidle =>
      rw [hidle.pending]
      exact ⟨[], .nil, rfl⟩
    | begun hholds =>
      have hheld : (Text.trim r.pending).isEmpty = false := by
        refine Text.isEmpty_trim_of_mem (c := '(') ?_ (by decide)
        rw [hholds.pending, List.mem_reverse]
        exact List.mem_of_mem_head? hholds.begun.opens
      refine ⟨[.unclosed piece], ?_, ?_⟩
      · have hcons := Divided.cons (.unclosed ⟨⟨_, hholds.begun⟩, hholds.first⟩) .nil
        rwa [List.append_nil] at hcons
      · rw [hheld, if_neg Bool.false_ne_true, ← hholds.line, List.flatMap_singleton,
          Part.found_unclosed]
  | cons l ls ih =>
    intro n r piece h
    cases l with
    | none =>
      cases h with
      | idle hidle =>
        obtain ⟨ps, hdivided, hfound⟩ := ih (n + 1) (.idle hidle)
        have hfits : (Part.between ⟨n, none⟩).Fits ([] ++ symbolsFrom (n + 1) ls) :=
          .between fun _ hc => nomatch hc
        exact ⟨.between ⟨n, none⟩ :: ps, .cons hfits hdivided, congrArg (_ :: ·) hfound⟩
      | begun hholds =>
        obtain ⟨ps, hdivided, hfound⟩ := ih (n + 1) (.begun (hholds.undecoded n))
        rw [List.append_assoc] at hdivided
        rw [undecoded_append, List.map_append, List.append_assoc] at hfound
        exact ⟨ps, hdivided, hfound⟩
    | some cs =>
      refine (h.scanned cs).divides (fun x hx heq => ?_) fun piece' h' => ih (n + 1) h'
      exact absurd (le_line_of_mem_symbolsFrom hx) (by omega)

/-! ## The order of the items -/

/-- The line of a tree's end or of a character that is astray. -/
def placed : Found → Option Nat
  | .ok (m, _) => some m
  | .error ⟨m, .stray _⟩ => some m
  | .error _ => none

/-- A tree ends on a line and a character is astray on it. -/
def Clash (fs : List Found) : Prop :=
  ∃ m t c, .ok (m, t) ∈ fs ∧ .error ⟨m, .stray c⟩ ∈ fs

/-- A single error shares its line with no tree. -/
theorem not_clash_of_error (e : ParseError) : ¬ Clash [.error e] := by
  rintro ⟨_, _, _, htree, -⟩
  cases List.mem_singleton.mp htree

/-- What the items of a line have to do with what is found on it. -/
structure Reordered (n : Nat) (its : List Item) (fs : List Found) : Prop where
  length : its.length = fs.length
  trees : its.filter Except.isOk = (fs.map itemOf).filter Except.isOk
  errors : its.filterMap error? = (fs.map itemOf).filterMap error?
  placed : ∀ f ∈ fs, ∀ m, placed f = some m → m = n
  eq_iff : its = fs.map itemOf ↔ ¬ Clash fs

theorem reordered_undecodable (n : Nat) :
    Reordered n [.error ⟨n, .undecodable⟩] [.error ⟨n, .undecodable⟩] where
  length := rfl
  trees := rfl
  errors := rfl
  placed f hf m hm := by
    rw [List.mem_singleton.mp hf] at hm
    cases hm
  eq_iff := iff_of_true rfl (not_clash_of_error _)

/-- The trees of a line and a character that is astray, which is reported in front of them. -/
theorem reordered_line (n : Nat) (ts : List Tree) (c : Option Char) :
    Reordered n ((c.map fun x => .error ⟨n, .stray x⟩).toList ++ ts.map .ok)
      (ts.map (fun t => .ok (n, t)) ++ (c.map fun x => .error ⟨n, .stray x⟩).toList) := by
  have hitems : (ts.map (fun t => (.ok (n, t) : Found)) ++
      (c.map fun x => (.error ⟨n, .stray x⟩ : Found)).toList).map itemOf =
        ts.map .ok ++ (c.map fun x => .error ⟨n, .stray x⟩).toList := by
    rw [List.map_append, List.map_map]
    cases c <;> rfl
  have htrees :
      ((c.map fun x => (.error ⟨n, .stray x⟩ : Item)).toList).filter Except.isOk = [] := by
    cases c <;> rfl
  have herrors : (ts.map (Except.ok : Tree → Item)).filterMap error? = [] := by
    rw [List.filterMap_map]
    exact List.filterMap_eq_nil_iff.mpr fun _ _ => rfl
  refine ⟨?_, ?_, ?_, fun f hf m hm => ?_, ?_⟩
  · cases c <;> simp
  · rw [hitems, List.filter_append, List.filter_append, htrees, List.nil_append, List.append_nil]
  · rw [hitems, List.filterMap_append, List.filterMap_append, herrors, List.nil_append,
      List.append_nil]
  · rcases List.mem_append.mp hf with hf | hf
    · obtain ⟨t, -, rfl⟩ := List.mem_map.mp hf
      exact (Option.some.inj hm).symm
    · obtain ⟨x, -, rfl⟩ := Option.map_eq_some_iff.mp (Option.mem_toList.mp hf)
      exact (Option.some.inj hm).symm
  · rw [hitems]
    cases c with
    | none =>
      refine iff_of_true (List.append_nil _).symm ?_
      rintro ⟨m, t, c, -, herror⟩
      rw [Option.map_none, Option.toList_none, List.append_nil] at herror
      obtain ⟨t, -, ht⟩ := List.mem_map.mp herror
      cases ht
    | some c =>
      cases ts with
      | nil => exact iff_of_true rfl (not_clash_of_error _)
      | cons t ts =>
        refine iff_of_false (fun heq => ?_) (not_not_intro ?_)
        · cases List.head_eq_of_cons_eq heq
        · exact ⟨n, t, c, List.mem_append_left _ List.mem_cons_self,
            List.mem_append_right _ (List.mem_singleton.mpr rfl)⟩

section reader

variable {n : Nat} {r : Reader} {ls : List Line} {piece : List Symbol}

/-- The groups of a line are trees that are found on the line. -/
theorem Scanned.exists_trees {cs : List Char} {s : Scan} (h : Scanned n piece cs s) :
    ∃ ts : List Tree, s.groups.map readGroup = ts.map .ok ∧
      s.groups.map (fun g => foundOn n (readGroup g)) = ts.map fun t => .ok (n, t) := by
  have hgroups := h.isGroup
  generalize s.groups = gs at hgroups
  induction gs with
  | nil => exact ⟨[], rfl, rfl⟩
  | cons g gs ih =>
    obtain ⟨hg, hgs⟩ := List.forall_mem_cons.mp hgroups
    obtain ⟨ts, hitems, hfound⟩ := ih hgs
    obtain ⟨-, t, ht⟩ := readGroup_of_isGroup hg
    refine ⟨t :: ts, ?_, ?_⟩
    · rw [List.map_cons, hitems, ht, List.map_cons]
    · rw [List.map_cons, hfound, ht, List.map_cons]
      rfl

/-- **What comes of a line**: its items are what is found on it, but for the order. -/
theorem Tracks.exists_line (h : Tracks r piece) (n : Nat) (l : Line) :
    ∃ its fs r' piece', Tracks r' piece' ∧ Reordered n its fs ∧
      (∀ ls, itemsFrom n r (l :: ls) = its ++ itemsFrom (n + 1) r' ls) ∧
      ∀ ls, foundFrom n r (l :: ls) = fs ++ foundFrom (n + 1) r' ls := by
  cases l with
  | none => exact ⟨_, _, r, piece, h, reordered_undecodable n, fun _ => rfl, fun _ => rfl⟩
  | some cs =>
    have hscanned := h.scanned (n := n) cs
    obtain ⟨ts, hitems, hfound⟩ := hscanned.exists_trees
    obtain ⟨piece', hpiece'⟩ := hscanned.tracks
    obtain ⟨c, hc⟩ : ∃ c : Option Char, (r.scan n cs).error = c.map fun x => ⟨n, .stray x⟩ := by
      cases herror : (r.scan n cs).error with
      | none => exact ⟨none, rfl⟩
      | some e =>
        obtain ⟨⟨c, rfl⟩, -⟩ := hscanned.error_eq herror
        exact ⟨some c, rfl⟩
    refine ⟨_, _, _, piece', hpiece', reordered_line n ts c, fun ls => ?_, fun ls => ?_⟩
    · rw [itemsFrom, hitems, hc, Option.map_map]
      rfl
    · rw [foundFrom, foundIn, hfound, hc, Option.map_map]
      rfl

/-- What the items of every line have in common with what is found on it, those of the text have in
common with what is found in the text. -/
theorem Tracks.eq_of_lines {β : Type} {f : List Item → List β}
    (happend : ∀ xs ys, f (xs ++ ys) = f xs ++ f ys)
    (hlines : ∀ {n its fs}, Reordered n its fs → f its = f (fs.map itemOf)) (h : Tracks r piece) :
    f (itemsFrom n r ls) = f ((foundFrom n r ls).map itemOf) := by
  induction ls generalizing n r piece with
  | nil =>
    rw [itemsFrom, foundFrom]
    split <;> rfl
  | cons l ls ih =>
    obtain ⟨its, fs, r', piece', hpiece', hline, hitems, hfound⟩ := h.exists_line n l
    rw [hitems, hfound, List.map_append, happend, happend, ih hpiece', hlines hline]

/-- The trees are given in the order of the text. -/
theorem Tracks.filter_isOk (h : Tracks r piece) :
    (itemsFrom n r ls).filter Except.isOk = ((foundFrom n r ls).map itemOf).filter Except.isOk :=
  h.eq_of_lines (fun _ _ => List.filter_append ..) Reordered.trees

/-- The errors are given in the order of the text. -/
theorem Tracks.filterMap_error (h : Tracks r piece) :
    (itemsFrom n r ls).filterMap error? = ((foundFrom n r ls).map itemOf).filterMap error? :=
  h.eq_of_lines (fun _ _ => List.filterMap_append ..) Reordered.errors

/-- What is found from a line on is found on no earlier line. -/
theorem Tracks.le_of_placed (h : Tracks r piece) {f : Found} (hf : f ∈ foundFrom n r ls) {m : Nat}
    (hm : placed f = some m) : n ≤ m := by
  induction ls generalizing n r piece with
  | nil =>
    rw [foundFrom] at hf
    split at hf
    · cases hf
    · rw [List.mem_singleton.mp hf] at hm
      cases hm
  | cons l ls ih =>
    obtain ⟨its, fs, r', piece', hpiece', hline, -, hfound⟩ := h.exists_line n l
    rw [hfound] at hf
    rcases List.mem_append.mp hf with hf | hf
    · exact Nat.le_of_eq (hline.placed f hf m hm).symm
    · exact Nat.le_of_succ_le (ih hpiece' hf)

/-- What shares a line is found on the same side of the end of a line. -/
theorem clash_append {a b : List Found} (ha : ∀ f ∈ a, ∀ m, placed f = some m → m = n)
    (hb : ∀ f ∈ b, ∀ m, placed f = some m → n < m) : Clash (a ++ b) ↔ Clash a ∨ Clash b := by
  constructor
  · rintro ⟨m, t, c, htree, herror⟩
    rcases List.mem_append.mp htree with htree | htree <;>
      rcases List.mem_append.mp herror with herror | herror
    · exact .inl ⟨m, t, c, htree, herror⟩
    · exact absurd (ha _ htree m rfl) (Nat.ne_of_gt (hb _ herror m rfl))
    · exact absurd (ha _ herror m rfl) (Nat.ne_of_gt (hb _ htree m rfl))
    · exact .inr ⟨m, t, c, htree, herror⟩
  · rintro (⟨m, t, c, htree, herror⟩ | ⟨m, t, c, htree, herror⟩)
    · exact ⟨m, t, c, List.mem_append_left b htree, List.mem_append_left b herror⟩
    · exact ⟨m, t, c, List.mem_append_right a htree, List.mem_append_right a herror⟩

/-- **The items are in the order of the text exactly if no tree ends on a line of stray text.** -/
theorem Tracks.itemsFrom_eq_iff (h : Tracks r piece) :
    itemsFrom n r ls = (foundFrom n r ls).map itemOf ↔ ¬ Clash (foundFrom n r ls) := by
  induction ls generalizing n r piece with
  | nil =>
    rw [itemsFrom, foundFrom]
    split
    · refine iff_of_true rfl ?_
      rintro ⟨_, _, _, htree, -⟩
      cases htree
    · exact iff_of_true rfl (not_clash_of_error _)
  | cons l ls ih =>
    obtain ⟨its, fs, r', piece', hpiece', hline, hitems, hfound⟩ := h.exists_line n l
    have hclash := clash_append hline.placed (b := foundFrom (n + 1) r' ls)
      fun f hf m hm => hpiece'.le_of_placed hf hm
    have hlength : its.length = (fs.map itemOf).length := by rw [List.length_map, hline.length]
    rw [hitems, hfound, List.map_append, hclash, not_or, ← hline.eq_iff, ← ih hpiece']
    constructor
    · exact fun heq => List.append_inj heq hlength
    · rintro ⟨hits, hrest⟩
      rw [hits, hrest]

end reader

end Constituency.Bracket
