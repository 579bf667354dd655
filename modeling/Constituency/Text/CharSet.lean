import Constituency.Text.Chars

/-!
# Sets of characters

A set of characters is kept as spans of code points, in ascending order and with a gap between any
two of them, so that a set has one form only. All operations go through `CharSet.ofSpans` or
`CharSet.compl`, which restore that form.

Code points that are no characters, the surrogates, may lie inside a span. No question about a
character depends on them.

Large sets are written as hexadecimal text: `41-5a` is a span, `100-12e/2` stands for every second
point from the first to the last, since many alphabets alternate upper and lower case.
-/

namespace Constituency

/-- The code points from `first` to `last`, both included. -/
structure CodeSpan where
  first : Nat
  last : Nat
deriving DecidableEq, Repr

/-- A set of characters. -/
structure CharSet where
  spans : List CodeSpan
deriving DecidableEq, Repr

namespace CodeSpan

/-- The greatest code point. -/
def greatest : Nat := 0x10FFFF

/-- Whether all points of a span are surrogates. -/
def isSurrogate (s : CodeSpan) : Bool :=
  0xD800 ≤ s.first && s.last ≤ 0xDFFF

/-- Joins a span with those after it that overlap or touch it, and so on along the list. -/
def coalesce (s : CodeSpan) : List CodeSpan → List CodeSpan
  | [] => [s]
  | t :: rest =>
    if t.first ≤ s.last + 1 then coalesce ⟨s.first, Nat.max s.last t.last⟩ rest
    else s :: coalesce t rest

/-- The spans between those of a list, from the point `low` on. -/
def gaps (low : Nat) : List CodeSpan → List CodeSpan
  | [] => if low ≤ greatest then [⟨low, greatest⟩] else []
  | s :: rest =>
    if low < s.first then ⟨low, s.first - 1⟩ :: gaps (s.last + 1) rest
    else gaps (s.last + 1) rest

/-- Whether a code point is in one of several ascending spans; the search ends at the first span
beyond it. -/
def anyContains (n : Nat) : List CodeSpan → Bool
  | [] => false
  | s :: rest => if n < s.first then false else n ≤ s.last || anyContains n rest

end CodeSpan

namespace CharSet

/-- Whether a code point is in the set. -/
def containsCode (a : CharSet) (n : Nat) : Bool :=
  CodeSpan.anyContains n a.spans

/-- Whether a character is in the set. -/
def contains (a : CharSet) (c : Char) : Bool :=
  a.containsCode c.toNat

/-- The set of no character. -/
def empty : CharSet := ⟨[]⟩

/-- The set of every character. -/
def all : CharSet := ⟨[⟨0, CodeSpan.greatest⟩]⟩

/-- The set with the points of some spans, given in any order. -/
def ofSpans (spans : List CodeSpan) : CharSet :=
  match spans.mergeSort (fun s t => s.first ≤ t.first) with
  | [] => empty
  | s :: rest => ⟨s.coalesce rest⟩

/-- The characters from `first` to `last`. -/
def range (first last : Char) : CharSet :=
  if first ≤ last then ⟨[⟨first.toNat, last.toNat⟩]⟩ else empty

/-- The set of one character. -/
def single (c : Char) : CharSet := ⟨[⟨c.toNat, c.toNat⟩]⟩

/-- The set of some characters. -/
def ofList (cs : List Char) : CharSet :=
  ofSpans (cs.map fun c => ⟨c.toNat, c.toNat⟩)

/-- The characters of two sets. -/
def union (a b : CharSet) : CharSet :=
  ofSpans (a.spans ++ b.spans)

/-- The characters of several sets. -/
def unions (as : List CharSet) : CharSet :=
  ofSpans (as.flatMap (·.spans))

/-- The characters that are not in the set. -/
def compl (a : CharSet) : CharSet :=
  ⟨(CodeSpan.gaps 0 a.spans).filter (!·.isSurrogate)⟩

/-- The characters that two sets share. -/
def inter (a b : CharSet) : CharSet :=
  compl (union a.compl b.compl)

/-- The characters of `a` that are not in `b`. -/
def diff (a b : CharSet) : CharSet :=
  compl (union a.compl b)

/-- The characters of just one of two sets. -/
def symmDiff (a b : CharSet) : CharSet :=
  union (a.diff b) (b.diff a)

/-- The set or its complement. -/
def negateIf (negated : Bool) (a : CharSet) : CharSet :=
  if negated then a.compl else a

/-- Whether the set has no character. -/
def isEmpty (a : CharSet) : Bool :=
  a.spans.isEmpty

/-- Whether the set has only ASCII characters. -/
def isAscii (a : CharSet) : Bool :=
  a.spans.all (·.last ≤ 0x7F)

/-- The character of a set that has just one. -/
def only? (a : CharSet) : Option Char :=
  match a.spans with
  | [s] => if s.first = s.last then some (Char.ofNat s.first) else none
  | _ => none

end CharSet

/-! ## Sets as text -/

namespace Text

/-- The value of a run of hexadecimal digits in lower case. -/
def hexValue (cs : List Char) : Nat :=
  cs.foldl (fun n c => 16 * n + (if c.isDigit then c.toNat - 48 else c.toNat - 87)) 0

/-- The words of a text, separated by blanks and line ends. -/
def words (s : String) : List (List Char) :=
  (fields isBlank s.toList).filter (!·.isEmpty)

end Text

open Text

/-- Reads two hexadecimal numbers with a hyphen between them, or one that stands for both. -/
def CodeSpan.ofHex (cs : List Char) : CodeSpan :=
  match fields (· == '-') cs with
  | [first, last] => ⟨hexValue first, hexValue last⟩
  | _ => ⟨hexValue cs, hexValue cs⟩

/-- Reads a span, or the points of a span that are a step apart. -/
def CodeSpan.listOfHex (cs : List Char) : List CodeSpan :=
  match fields (· == '/') cs with
  | [span, step] =>
    let s := ofHex span
    let step := hexValue step
    (List.range ((s.last - s.first) / step + 1)).map fun i =>
      ⟨s.first + i * step, s.first + i * step⟩
  | _ => [ofHex cs]

/-- Reads a set. -/
def CharSet.ofHex (s : String) : CharSet :=
  ofSpans ((words s).flatMap CodeSpan.listOfHex)

/-- A set of characters under the names it is looked up by, in lower case and without spaces,
hyphens and underscores. -/
structure NamedSet where
  names : List String
  text : String

namespace NamedSet

/-- The characters of the set. -/
def set (s : NamedSet) : CharSet := .ofHex s.text

/-- The set of a name among several. -/
def find? (sets : List NamedSet) (name : String) : Option CharSet :=
  (sets.find? (·.names.contains name)).map (·.set)

end NamedSet

end Constituency
