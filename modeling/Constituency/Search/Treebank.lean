import Constituency.Bracket.Stream
import Constituency.Search.Enumeration

/-!
# Treebanks

A treebank is a text or several files with trees in bracketed notation. What is not a tree is passed
over, and so are files that cannot be read.
-/

namespace Constituency

/-- Where trees are read from. -/
inductive Treebank where
  | text (content : String)
  /-- The contents of files, `none` for a file that cannot be read. -/
  | files (contents : List (Option String))

namespace Treebank

/-- The texts of a treebank. -/
def texts : Treebank → List String
  | text content => [content]
  | files contents => contents.filterMap id

/-- The trees among the items of a text. -/
def treesOf (content : String) : List Tree :=
  (Bracket.itemsOfText content).filterMap Except.toOption

/-- The trees of a treebank, in order. -/
def trees (b : Treebank) : List Tree :=
  b.texts.flatMap treesOf

/-- The matches of a pattern in the trees of a treebank, each with its tree. -/
def matchesOf (b : Treebank) (p : Pattern) (mode : Mode) : List (Tree × Match) :=
  b.trees.flatMap fun t => (p.search mode t).map (t, ·)

end Treebank

end Constituency
