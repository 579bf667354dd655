import Constituency.Text.Chars

/-!
# Labels

A label such as `NP-SBJ-1` is a basic category followed by annotations. Each annotation starts at
a mark, one of a given set of characters: a functional tag (`SBJ`), or a co-index (`1`). Labels
wrapped in dashes, such as `-NONE-` and `-LRB-`, are categories as a whole.
-/

namespace Constituency

/-- The label of a node. -/
abbrev Label := String

/-- The characters that start an annotation. -/
abbrev Marks := List Char

/-- The marks of the usual labels. -/
def Marks.standard : Marks := ['-', '=', '|', '#', '^', '~', '_']

namespace Label

/-- At least three characters, the first and the last of them dashes. -/
def isWrapped (cs : List Char) : Bool :=
  cs.length > 2 && cs.head? == some '-' && cs.getLast? == some '-'

/-- The basic category: all up to the first mark. The first character belongs to it even if it is
a mark, and a label wrapped in dashes is its own category. -/
def categoryChars (marks : Marks) (cs : List Char) : List Char :=
  if isWrapped cs then cs
  else match cs with
    | [] => []
    | c :: rest => c :: rest.takeWhile (!marks.contains ·)

/-- What follows the basic category. -/
def annotationChars (marks : Marks) (cs : List Char) : List Char :=
  cs.drop (categoryChars marks cs).length

/-- The basic category of a label. -/
def category (marks : Marks) (l : Label) : String :=
  String.ofList (categoryChars marks l.toList)

/-- The last annotation, if it is a number that fits a word of 32 bits. -/
def coindexChars (marks : Marks) (cs : List Char) : Option Nat :=
  let rest := annotationChars marks cs
  let last := (rest.reverse.takeWhile (!marks.contains ·)).reverse
  if rest.any marks.contains then Text.decimalBelow? UInt32.size last else none

/-- The co-index of a label: `1` for `NP-SBJ-1`. -/
def coindex (marks : Marks) (l : Label) : Option Nat :=
  coindexChars marks l.toList

/-- The annotations that are neither empty nor numbers, in order. -/
def tagChars (marks : Marks) (cs : List Char) : List (List Char) :=
  (Text.fields marks.contains (annotationChars marks cs)).filter
    fun tag => !tag.isEmpty && !Text.isDecimal tag

/-- The functional tags of a label: `SBJ` for `NP-SBJ-1`. -/
def tags (marks : Marks) (l : Label) : List String :=
  (tagChars marks l.toList).map String.ofList

/-- The label with a co-index added at its end. -/
def withCoindex (l : Label) (n : Nat) : Label :=
  l ++ "-" ++ toString n

end Label

end Constituency
