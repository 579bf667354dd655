import Constituency.Bracket.Token
import Constituency.Tree.Edit

/-!
# Reading bracketed notation

A text such as `(S (NP (NNP John)) (VP (VBZ runs)))` denotes one labelled tree. An atom directly
after an opening parenthesis is the label of the node; other atoms are leaves. A node may lack its
label, its children or both. A single pair of parentheses with nothing in it denotes the tree
without nodes.
-/

namespace Constituency.Bracket

/-- Why a text denotes no tree. -/
inductive ParseError.Cause where
  | trailingText
  | unbalanced
  | unclosed (count : Nat)
  | noTree
  | stray (c : Char)
  | endsInsideTree
  | undecodable
deriving DecidableEq, Repr

/-- A cause and the line where it shows. -/
structure ParseError where
  line : Nat
  cause : ParseError.Cause
deriving DecidableEq, Repr

/-- The wording of a cause. -/
def ParseError.Cause.message : ParseError.Cause → String
  | .trailingText => "Unexpected text after the end of the tree"
  | .unbalanced => "Unbalanced ')'"
  | .unclosed n => toString n ++ " unclosed '('"
  | .noTree => "No tree found"
  | .stray c => "Unexpected '" ++ c.toString ++ "' outside brackets"
  | .endsInsideTree => "Unclosed tree at end of input"
  | .undecodable => "IO error: stream did not contain valid UTF-8"

/-- The wording of an error, with its line. -/
def ParseError.message (e : ParseError) : String :=
  "Parse error at line " ++ toString e.line ++ ": " ++ e.cause.message

/-- A node whose closing parenthesis has not been read yet, its children last to first. -/
structure Frame where
  label : Label
  children : List Constituent

namespace Frame

/-- The frame of an opening parenthesis. -/
def fresh : Frame := ⟨"", []⟩

/-- Whether nothing has been read since the opening parenthesis. -/
def isFresh (f : Frame) : Bool :=
  f.label.isEmpty && f.children.isEmpty

/-- The frame with one more child. -/
def add (f : Frame) (c : Constituent) : Frame :=
  { f with children := c :: f.children }

/-- The node that the frame becomes at its closing parenthesis. -/
def close (f : Frame) : Constituent :=
  .node f.label f.children.reverse

end Frame

/-- What has been read of a text: the nodes still open, innermost first, or the whole tree. -/
inductive Progress where
  | reading (frames : List Frame)
  | finished (tree : Constituent)

/-- Adds a finished constituent to the innermost open node. -/
def Progress.deliver (c : Constituent) : List Frame → Progress
  | [] => .finished c
  | f :: fs => .reading (f.add c :: fs)

/-- Takes one more token. -/
def Progress.step (p : Progress) (t : Located) : Except ParseError Progress :=
  match p with
  | .finished _ => .error ⟨t.line, .trailingText⟩
  | .reading frames =>
    match t.token, frames with
    | .opening, fs => .ok (.reading (.fresh :: fs))
    | .closing, [] => .error ⟨t.line, .unbalanced⟩
    | .closing, f :: fs => .ok (.deliver f.close fs)
    | .atom a, [] => .ok (.finished (.node (String.ofList a) []))
    | .atom a, f :: fs =>
      if f.isFresh then .ok (.reading ({ f with label := String.ofList a } :: fs))
      else .ok (.reading (f.add (.node (String.ofList a) []) :: fs))

/-- The tree read when the text ends on a given line; empty brackets denote no tree at all. -/
def Progress.result (line : Nat) : Progress → Except ParseError (Option Constituent)
  | .reading [] => .error ⟨line, .noTree⟩
  | .reading fs => .error ⟨line, .unclosed fs.length⟩
  | .finished (.node l cs) => .ok (if l.isEmpty && cs.isEmpty then none else some (.node l cs))

/-- The labelled tree that a text denotes. -/
def parse (cs : List Char) : Except ParseError (Option Constituent) := do
  let progress ← (tokens cs).foldlM Progress.step (Progress.reading [])
  progress.result (lastLine cs)

/-- Reads exactly one tree. -/
def parseTree (text : String) : Except ParseError Tree :=
  return .ofConstituent (← parse text.toList)

end Constituency.Bracket
