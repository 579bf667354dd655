import Constituency.Bracket.Stream
import Constituency.Proofs.Bracket.Groups

/-!
# The parts of a stream

A stream is the row of its symbols: the characters of its lines, each line ended by a line feed, and
one symbol for every line that is not UTF-8. It falls into parts: the pieces that make up a tree,
from its opening parenthesis to the closing one; stray text, which is a character outside of trees
that is not blank, with the rest of its line; a tree at the end that is not closed; and what stands
between all these, blanks and lines that are not UTF-8.

There is one such division at most (`Divided.unique`). Which items the parts amount to
(`Part.items`) is said without the reader, so that the items it gives can be compared with those.
-/

namespace Constituency.Bracket

/-! ## Symbols -/

/-- A character of a stream with the number of its line, or a line that is not UTF-8. -/
structure Symbol where
  line : Nat
  char : Option Char

/-- The symbols of a line. Whatever ends the line counts as a line feed. -/
def lineSymbols (n : Nat) : Line → List Symbol
  | none => [⟨n, none⟩]
  | some cs => (cs ++ ['\n']).map fun c => ⟨n, some c⟩

/-- The symbols of the lines from number `n` on. -/
def symbolsFrom (n : Nat) : List Line → List Symbol
  | [] => []
  | l :: ls => lineSymbols n l ++ symbolsFrom (n + 1) ls

/-- The characters of a piece of a stream; lines that are not UTF-8 are passed over. -/
def textOf (piece : List Symbol) : List Char :=
  piece.filterMap Symbol.char

/-- The line on which a piece begins. -/
def firstLine (piece : List Symbol) : Nat :=
  (piece.head?.map Symbol.line).getD 0

/-- The line on which a piece ends. -/
def finalLine (piece : List Symbol) : Nat :=
  (piece.getLast?.map Symbol.line).getD 0

/-- What there is to report about the lines of a piece that are not UTF-8. -/
def undecoded (piece : List Symbol) : List ParseError :=
  (piece.filter fun s => s.char.isNone).map fun s => ⟨s.line, .undecodable⟩

/-- The order of the symbols of a stream. A line that is not UTF-8 has one symbol only. -/
def Symbol.Precedes (a b : Symbol) : Prop :=
  a.line ≤ b.line ∧ (a.char = none ∨ b.char = none → a.line < b.line)

theorem textOf_append (a b : List Symbol) : textOf (a ++ b) = textOf a ++ textOf b :=
  List.filterMap_append

theorem undecoded_append (a b : List Symbol) : undecoded (a ++ b) = undecoded a ++ undecoded b := by
  rw [undecoded, List.filter_append, List.map_append]
  rfl

theorem mem_undecoded {piece : List Symbol} {e : ParseError} :
    e ∈ undecoded piece ↔ ∃ s ∈ piece, s.char = none ∧ e = ⟨s.line, .undecodable⟩ := by
  simp only [undecoded, List.mem_map, List.mem_filter, Option.isNone_iff_eq_none, and_assoc,
    eq_comm (a := e)]

theorem line_of_mem_lineSymbols {n : Nat} {l : Line} {s : Symbol} (h : s ∈ lineSymbols n l) :
    s.line = n := by
  cases l with
  | none => rw [List.mem_singleton.mp h]
  | some cs =>
    obtain ⟨c, -, rfl⟩ := List.mem_map.mp h
    rfl

theorem le_line_of_mem_symbolsFrom {s : Symbol} : ∀ {ls : List Line} {n : Nat},
    s ∈ symbolsFrom n ls → n ≤ s.line
  | [], _, h => absurd h (List.not_mem_nil)
  | l :: ls, n, h => by
    rcases List.mem_append.mp h with h | h
    · exact Nat.le_of_eq (line_of_mem_lineSymbols h).symm
    · exact Nat.le_of_succ_le (le_line_of_mem_symbolsFrom h)

/-- The symbols of a stream are in order. -/
theorem pairwise_symbolsFrom : ∀ (ls : List Line) (n : Nat),
    (symbolsFrom n ls).Pairwise Symbol.Precedes
  | [], _ => .nil
  | l :: ls, n => by
    refine List.pairwise_append.mpr ⟨?_, pairwise_symbolsFrom ls (n + 1), fun a ha b hb => ?_⟩
    · cases l with
      | none => exact List.pairwise_singleton ..
      | some cs =>
        refine List.pairwise_map.mpr (List.pairwise_of_forall fun a b => ⟨Nat.le_refl _, ?_⟩)
        rintro (h | h) <;> cases h
    · have hlt : a.line < b.line := by
        rw [line_of_mem_lineSymbols ha]
        exact le_line_of_mem_symbolsFrom hb
      exact ⟨Nat.le_of_lt hlt, fun _ => hlt⟩

/-! ## Parts -/

/-- A piece that makes up a tree. -/
structure IsTree (piece : List Symbol) : Prop where
  group : IsGroup (textOf piece)
  first : piece.head?.bind Symbol.char = some '('
  last : piece.getLast?.bind Symbol.char = some ')'

/-- A piece that only begins a tree. -/
structure IsUnclosed (piece : List Symbol) : Prop where
  begun : ∃ depth, Begun depth (textOf piece)
  first : piece.head?.bind Symbol.char = some '('

/-- A part of a stream. -/
inductive Part where
  /-- A blank, or a line that is not UTF-8, outside of trees. -/
  | between (s : Symbol)
  | tree (piece : List Symbol)
  /-- A character that is not blank, outside of trees, with the rest of its line. -/
  | stray (line : Nat) (c : Char) (rest : List Symbol)
  /-- A tree that the end of the stream cuts off. -/
  | unclosed (piece : List Symbol)

namespace Part

def symbols : Part → List Symbol
  | between s => [s]
  | tree piece => piece
  | stray line c rest => ⟨line, some c⟩ :: rest
  | unclosed piece => piece

/-- What there is to report about a part. -/
def errors : Part → List ParseError
  | between s => undecoded [s]
  | tree piece => undecoded piece
  | stray line c _ => [⟨line, .stray c⟩]
  | unclosed piece => undecoded piece ++ [⟨firstLine piece, .endsInsideTree⟩]

/-- The tree of a part, as it is read from its text alone. -/
def tree? : Part → Option Item
  | tree piece => some (parseTree (String.ofList (textOf piece)))
  | _ => none

/-- The items of a part in the order of the text: a tree stands where it ends. -/
def items (p : Part) : List Item :=
  p.errors.map .error ++ p.tree?.toList

/-- What can be a part, with the symbols that come after it. -/
inductive Fits : Part → List Symbol → Prop where
  | between {s : Symbol} {rest : List Symbol} : (∀ c, s.char = some c → Text.isBlank c = true) →
    Fits (between s) rest
  | tree {piece rest : List Symbol} : IsTree piece → Fits (tree piece) rest
  | stray {line : Nat} {c : Char} {tail rest : List Symbol} : Text.isBlank c = false → c ≠ '(' →
    (∀ s ∈ tail, s.line = line) → (∀ s ∈ rest, s.line ≠ line) → Fits (stray line c tail) rest
  | unclosed {piece : List Symbol} : IsUnclosed piece → Fits (unclosed piece) []

end Part

/-- A row of symbols as a row of parts. -/
inductive Divided : List Symbol → List Part → Prop where
  | nil : Divided [] []
  | cons {p : Part} {ss : List Symbol} {ps : List Part} : p.Fits ss → Divided ss ps →
    Divided (p.symbols ++ ss) (p :: ps)

/-! ## There is one division -/

/-- What the first character of a part says about it. -/
inductive Kind where
  | between
  | grouped
  | stray
deriving DecidableEq

namespace Kind

/-- The kind of the parts that begin with a symbol. -/
def ofChar : Option Char → Kind
  | none => between
  | some c => if Text.isBlank c then between else if c == '(' then grouped else stray

def ofPart : Part → Kind
  | .between _ => between
  | .tree _ => grouped
  | .stray .. => stray
  | .unclosed _ => grouped

end Kind

/-- The characters of a piece with its first character in front. -/
theorem head?_append_bind {piece rest : List Symbol} {c : Char}
    (h : piece.head?.bind Symbol.char = some c) :
    (piece ++ rest).head?.bind Symbol.char = some c := by
  cases piece with
  | nil => exact absurd h (by simp)
  | cons s piece => exact h

/-- The first symbol tells the kind of the part. -/
theorem Part.Fits.kind {p : Part} {ss : List Symbol} (h : p.Fits ss) :
    Kind.ofChar ((p.symbols ++ ss).head?.bind Symbol.char) = Kind.ofPart p := by
  cases h with
  | @between s rest hblank =>
    change Kind.ofChar s.char = .between
    cases hs : s.char with
    | none => rfl
    | some c => rw [Kind.ofChar, if_pos (hblank c hs)]
  | tree htree =>
    rw [Part.symbols, head?_append_bind htree.first]
    rfl
  | stray hblank hopening _ _ =>
    change Kind.ofChar (some _) = .stray
    rw [Kind.ofChar, if_neg (by simp [hblank]), if_neg (by simpa using hopening)]
  | unclosed hunclosed =>
    rw [Part.symbols, head?_append_bind hunclosed.first]
    rfl

/-- Trees that begin together end together. -/
theorem IsTree.eq_of_begins {piece other : List Symbol} (hpiece : IsTree piece)
    (hother : IsTree other) (hbegins : piece <+: other) : piece = other := by
  obtain ⟨rest, rfl⟩ := hbegins
  have hsame := hother.group
  rw [textOf_append] at hsame
  have htext := hpiece.group.eq_of_begins hsame (List.prefix_append ..)
  have hnone : textOf rest = [] := List.self_eq_append_right.mp htext
  -- the last symbol is a character, so that it cannot stand among symbols without text
  rcases List.eq_nil_or_concat rest with rfl | ⟨rest, s, hrest⟩
  · rw [List.append_nil]
  · rw [List.concat_eq_append] at hrest
    subst hrest
    have hlast := hother.last
    rw [← List.append_assoc, List.getLast?_concat] at hlast
    have hmem : ')' ∈ textOf (rest ++ [s]) :=
      List.mem_filterMap.mpr ⟨s, List.mem_concat_self, hlast⟩
    rw [hnone] at hmem
    exact absurd hmem List.not_mem_nil

theorem IsTree.unique {piece other a b : List Symbol} (hpiece : IsTree piece)
    (hother : IsTree other) (heq : piece ++ a = other ++ b) : piece = other := by
  rcases List.prefix_or_prefix_of_prefix (List.prefix_append piece a)
    (heq ▸ List.prefix_append other b) with hbegins | hbegins
  · exact hpiece.eq_of_begins hother hbegins
  · exact (hother.eq_of_begins hpiece hbegins).symm

/-- A tree that ends is not the beginning of one that does not. -/
theorem IsTree.not_isUnclosed {piece rest : List Symbol} (hpiece : IsTree piece) :
    ¬ IsUnclosed (piece ++ rest) := fun hunclosed => by
  obtain ⟨depth, hbegun⟩ := hunclosed.begun
  rw [textOf_append] at hbegun
  exact hpiece.group.not_begun hbegun

/-- The symbols of a line in front of those of other lines. -/
theorem takeWhile_line {line : Nat} {a b : List Symbol} (ha : ∀ s ∈ a, s.line = line)
    (hb : ∀ s ∈ b, s.line ≠ line) : (a ++ b).takeWhile (·.line == line) = a := by
  have hnone : b.takeWhile (·.line == line) = [] := by
    cases b with
    | nil => rfl
    | cons s b => rw [List.takeWhile_cons_of_neg (by simpa using hb s List.mem_cons_self)]
  rw [List.takeWhile_append_of_pos fun s hs => by simpa using ha s hs, hnone, List.append_nil]

/-- Only one part fits in front. -/
theorem Part.Fits.unique {p q : Part} {a b : List Symbol} (hp : p.Fits a) (hq : q.Fits b)
    (heq : p.symbols ++ a = q.symbols ++ b) : p = q := by
  have hkind : Kind.ofPart p = Kind.ofPart q := by rw [← hp.kind, ← hq.kind, heq]
  cases hp with
  | between =>
    cases hq with
    | between => rw [List.head_eq_of_cons_eq heq]
    | tree | stray | unclosed => cases hkind
  | tree hpiece =>
    cases hq with
    | tree hother => rw [hpiece.unique hother heq]
    | unclosed hother =>
      obtain rfl := heq.trans (List.append_nil _)
      exact absurd hother hpiece.not_isUnclosed
    | between | stray => cases hkind
  | @stray line c tail _ _ _ htail hrest =>
    cases hq with
    | @stray line' c' tail' _ _ _ htail' hrest' =>
      obtain ⟨rfl, hc⟩ := Symbol.mk.inj (List.cons.inj heq).1
      have hothers : tail ++ a = tail' ++ b := (List.cons.inj heq).2
      have hsame := takeWhile_line htail hrest
      rw [hothers, takeWhile_line htail' hrest'] at hsame
      rw [hsame, Option.some.inj hc]
    | between | tree | unclosed => cases hkind
  | unclosed hpiece =>
    cases hq with
    | tree hother =>
      obtain rfl := (List.append_nil _).symm.trans heq
      exact absurd hpiece hother.not_isUnclosed
    | unclosed =>
      rw [List.append_nil, List.append_nil] at heq
      exact congrArg _ heq
    | between | stray => cases hkind

theorem Part.Fits.ne_nil {p : Part} {ss : List Symbol} (h : p.Fits ss) : p.symbols ≠ [] := by
  cases h with
  | between | stray => exact List.cons_ne_nil _ _
  | tree htree =>
    rintro (rfl : _ = [])
    cases htree.first
  | unclosed hunclosed =>
    rintro (rfl : _ = [])
    cases hunclosed.first

/-- **A row of symbols falls into parts in one way.** -/
theorem Divided.unique {ss : List Symbol} {ps qs : List Part} (hp : Divided ss ps)
    (hq : Divided ss qs) : ps = qs := by
  induction hp generalizing qs with
  | nil =>
    generalize hss : ([] : List Symbol) = ss at hq
    cases hq with
    | nil => rfl
    | cons hfits _ => exact absurd (List.append_eq_nil_iff.mp hss.symm).1 hfits.ne_nil
  | @cons p a ps hfits _ ih =>
    generalize hss : p.symbols ++ a = ss at hq
    cases hq with
    | nil => exact absurd (List.append_eq_nil_iff.mp hss).1 hfits.ne_nil
    | cons hfits' hqs =>
      obtain rfl := hfits.unique hfits' hss
      obtain rfl := List.append_cancel_left hss
      rw [ih hqs]

/-! ## Where the parts stand -/

/-- The parts after some others make up what is left. -/
theorem Divided.split {qs : List Part} : ∀ {ps : List Part} {ss : List Symbol},
    Divided ss (ps ++ qs) → ∃ rest, ss = ps.flatMap Part.symbols ++ rest ∧ Divided rest qs
  | [], ss, h => ⟨ss, rfl, h⟩
  | p :: ps, _, .cons _ h => by
    obtain ⟨rest, rfl, hrest⟩ := h.split
    exact ⟨rest, by rw [List.flatMap_cons, List.append_assoc], hrest⟩

/-- The parts of a stream are all of it. -/
theorem Divided.symbols {ss : List Symbol} {ps : List Part} (h : Divided ss ps) :
    ps.flatMap Part.symbols = ss := by
  induction h with
  | nil => rfl
  | cons _ _ ih => rw [List.flatMap_cons, ih]

/-- A part fits in front of the symbols of the parts behind it. -/
theorem Divided.fits_front {ss : List Symbol} {ps qs : List Part} {p : Part}
    (h : Divided ss (ps ++ p :: qs)) : p.Fits (qs.flatMap Part.symbols) := by
  obtain ⟨rest, -, hrest⟩ := h.split
  cases hrest with
  | cons hfits hqs => rwa [hqs.symbols]

/-- The symbols of a part of a stream and of the parts behind it are in order. -/
theorem Divided.pairwise_front {n : Nat} {ls : List Line} {ps qs : List Part} {p : Part}
    (h : Divided (symbolsFrom n ls) (ps ++ p :: qs)) :
    (p.symbols ++ qs.flatMap Part.symbols).Pairwise Symbol.Precedes := by
  have hall := pairwise_symbolsFrom ls n
  rw [← h.symbols, List.flatMap_append, List.flatMap_cons] at hall
  exact (List.pairwise_append.mp hall).2.1

end Constituency.Bracket
