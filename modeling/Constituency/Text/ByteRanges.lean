import Constituency.Text.CharSet

/-!
# Sets of characters as bytes

In UTF-8 a character is one to four bytes. The encodings of a span of characters are in general no
product of byte ranges: those from `é` to `ツ` have two bytes or three. So a span is divided at the
points where the encoding gets longer, and then until every byte after the first one that varies
runs through its whole range. Each part is then a sequence of byte ranges.
-/

namespace Constituency

/-- The bytes from `first` to `last`. -/
structure ByteRange where
  first : Nat
  last : Nat
deriving DecidableEq, Repr

namespace Text

/-- The bytes of a code point. -/
def utf8Bytes (n : Nat) : List Nat :=
  if n < 0x80 then [n]
  else if n < 0x800 then [0xC0 + n / 0x40, 0x80 + n % 0x40]
  else if n < 0x10000 then [0xE0 + n / 0x1000, 0x80 + n / 0x40 % 0x40, 0x80 + n % 0x40]
  else [0xF0 + n / 0x40000, 0x80 + n / 0x1000 % 0x40, 0x80 + n / 0x40 % 0x40, 0x80 + n % 0x40]

end Text

namespace CodeSpan

/-- A span without surrogates, in at most two parts. -/
def scalars (s : CodeSpan) : List CodeSpan :=
  if s.first < 0xE000 && 0xD7FF < s.last then
    [⟨s.first, 0xD7FF⟩, ⟨0xE000, s.last⟩].filter fun t => t.first ≤ t.last
  else [s]

/-- The point at which a span is divided first, as the start of its second part. -/
def cut? (s : CodeSpan) : Option Nat :=
  ([0x80, 0x800, 0x10000].find? fun n => s.first < n && n ≤ s.last).or <|
    if s.last < 0x80 then none
    else [0x40, 0x1000, 0x40000].findSome? fun m =>
      if s.first / m = s.last / m then none
      else if s.first % m ≠ 0 then some ((s.first / m + 1) * m)
      else if (s.last + 1) % m ≠ 0 then some (s.last / m * m)
      else none

/-- The parts of a span whose encodings are products of byte ranges, in ascending order. -/
def divide (s : CodeSpan) : List CodeSpan :=
  match s.cut? with
  | none => [s]
  | some n =>
    if _ : s.first < n ∧ n ≤ s.last then divide ⟨s.first, n - 1⟩ ++ divide ⟨n, s.last⟩ else [s]
termination_by s.last - s.first
decreasing_by all_goals omega

/-- The byte ranges of a span that needs no division. -/
def byteRanges (s : CodeSpan) : List ByteRange :=
  List.zipWith ByteRange.mk (Text.utf8Bytes s.first) (Text.utf8Bytes s.last)

end CodeSpan

/-- The sequences of byte ranges that make up the encodings of a set. -/
def CharSet.byteSequences (a : CharSet) : List (List ByteRange) :=
  ((a.spans.flatMap CodeSpan.scalars).flatMap CodeSpan.divide).map CodeSpan.byteRanges

end Constituency
