import Constituency.Text.CharSet

/-!
# Regular expressions

The terms that regular expressions are made of. Flags such as case folding have been worked into
the terms by the parser.

Terms are kept in a simple form by the functions that make them: a sequence has no sequence, no
empty term and no two texts in a row among its parts, a choice has no choice among its branches, and
a choice between characters is a set. How much room an expression takes depends on that form.
-/

namespace Constituency.Regex

/-- The two directions in which a text can be read. -/
inductive Direction where
  | forward
  | backward
deriving DecidableEq, Repr

/-- The items of a list in the order in which they are read. -/
def Direction.arrange {α : Type} : Direction → List α → List α
  | forward, l => l
  | backward, l => l.reverse

/-- A condition on a position between characters. -/
inductive Look where
  | textStart
  | textEnd
  | lineStart
  | lineEnd
  /-- Like `lineStart`, with carriage returns ending lines too. -/
  | lineStartAny
  | lineEndAny
  | wordBoundary (word : CharSet)
  | noWordBoundary (word : CharSet)
  | wordStart (word : CharSet)
  | wordEnd (word : CharSet)
  | wordStartHalf (word : CharSet)
  | wordEndHalf (word : CharSet)
deriving DecidableEq, Repr

/-- A regular expression. -/
inductive Expr where
  | empty
  /-- One or more characters, one after the other. -/
  | text (cs : List Char)
  | chars (set : CharSet)
  | look (l : Look)
  /-- At least `min` and, if there is a `max`, at most that many repetitions; as many as possible
  if `greedy`, and else as few. -/
  | rep (min : Nat) (max : Option Nat) (greedy : Bool) (e : Expr)
  | group (index : Nat) (e : Expr)
  | seq (es : List Expr)
  /-- A choice; the first branch that matches is preferred. -/
  | alt (es : List Expr)

namespace Expr

mutual

/-- Whether two expressions are the same. -/
def same : Expr → Expr → Bool
  | empty, empty => true
  | text a, text b => a == b
  | chars a, chars b => a == b
  | look a, look b => a == b
  | rep min max greedy e, rep min' max' greedy' e' =>
    min == min' && max == max' && greedy == greedy' && same e e'
  | group i e, group j f => i == j && same e f
  | seq es, seq fs => sameAll es fs
  | alt es, alt fs => sameAll es fs
  | _, _ => false

/-- Whether two lists of expressions are the same. -/
def sameAll : List Expr → List Expr → Bool
  | [], [] => true
  | e :: es, f :: fs => same e f && sameAll es fs
  | _, _ => false

end

instance : BEq Expr := ⟨same⟩

/-! ## Lengths of matches -/

/-- The total of some numbers, if all are known. -/
def total? (ns : List (Option Nat)) : Option Nat :=
  (ns.mapM id).map (·.foldl (· + ·) 0)

/-- The least of some numbers, if all are known. -/
def least? (ns : List (Option Nat)) : Option Nat :=
  (ns.mapM id).bind List.min?

/-- The greatest of some numbers, if all are known. -/
def greatest? (ns : List (Option Nat)) : Option Nat :=
  (ns.mapM id).bind List.max?

/-- The length of what is one of the characters of a set, if there are any. -/
def setLength? (s : CharSet) : Option Nat :=
  if s.isEmpty then none else some 1

mutual

/-- The least number of characters of a match; none if some part cannot match at all. -/
def minLength? : Expr → Option Nat
  | empty => some 0
  | text cs => some cs.length
  | chars s => setLength? s
  | look _ => some 0
  | rep min _ _ e => (minLength? e).map (min * ·)
  | group _ e => minLength? e
  | seq es => total? (minLengths es)
  | alt es => least? (minLengths es)

/-- The least lengths of several expressions. -/
def minLengths : List Expr → List (Option Nat)
  | [] => []
  | e :: es => minLength? e :: minLengths es

end

mutual

/-- The greatest number of characters of a match, if there is a bound to it. -/
def maxLength? : Expr → Option Nat
  | empty => some 0
  | text cs => some cs.length
  | chars s => setLength? s
  | look _ => some 0
  | rep _ max _ e => do return (← max) * (← maxLength? e)
  | group _ e => maxLength? e
  | seq es => total? (maxLengths es)
  | alt es => greatest? (maxLengths es)

/-- The greatest lengths of several expressions. -/
def maxLengths : List Expr → List (Option Nat)
  | [] => []
  | e :: es => maxLength? e :: maxLengths es

end

/-- Whether every match has at least one character. -/
def isProper (e : Expr) : Bool :=
  e.minLength?.any (0 < ·)

/-- Whether no match has a character. -/
def isHollow (e : Expr) : Bool :=
  e.maxLength? == some 0

/-! ## Anchors -/

/-- The condition that holds at the end of a text from which it is read. -/
def anchor : Direction → Look
  | .forward => .textStart
  | .backward => .textEnd

/-- The first parts of a sequence, up to one that can take characters. Of each part is given whether
it is anchored and whether it is hollow. -/
def leading : List (Bool × Bool) → List (Bool × Bool)
  | [] => []
  | p :: ps => if p.2 then p :: leading ps else [p]

mutual

/-- Whether matches start, as read in one direction, at the end of the text. -/
def isAnchored (d : Direction) : Expr → Bool
  | look l => l == anchor d
  | rep min _ _ e => 0 < min && isAnchored d e
  | group _ e => isAnchored d e
  | seq es => (leading (d.arrange (anchoring d es))).any (·.1)
  | alt es => (anchoring d es).all (·.1)
  | _ => false

/-- For each of several expressions, whether it is anchored and whether it is hollow. -/
def anchoring (d : Direction) : List Expr → List (Bool × Bool)
  | [] => []
  | e :: es => (isAnchored d e, isHollow e) :: anchoring d es

end

/-! ## Making expressions -/

/-- One of the characters of a set. -/
def ofSet (s : CharSet) : Expr :=
  match s.only? with
  | some c => text [c]
  | none => chars s

/-- A repetition: what takes no characters is not repeated twice. -/
def repeated (min : Nat) (max : Option Nat) (greedy : Bool) (e : Expr) : Expr :=
  let min' := if e.isHollow then Nat.min min 1 else min
  let max' := if e.isHollow then some (Nat.min (max.getD 1) 1) else max
  if max' == some 0 then empty
  else if min' == 1 && max' == some 1 then e
  else rep min' max' greedy e

/-- Joins texts that follow each other. -/
def joinTexts : List Expr → List Expr
  | [] => []
  | text a :: es =>
    match joinTexts es with
    | text b :: fs => text (a ++ b) :: fs
    | fs => text a :: fs
  | e :: es => e :: joinTexts es

/-- The parts that an expression is when it stands in a sequence. -/
def parts : Expr → List Expr
  | empty => []
  | seq es => es
  | e => [e]

/-- Several expressions one after the other. -/
def inSequence (es : List Expr) : Expr :=
  match joinTexts (es.flatMap parts) with
  | [] => empty
  | [e] => e
  | fs => seq fs

/-- The branches that an expression is when it stands in a choice. -/
def branches : Expr → List Expr
  | alt es => es
  | e => [e]

/-- The character that is all of an expression. -/
def char? : Expr → Option Char
  | text [c] => some c
  | _ => none

/-- The set that is all of an expression. -/
def set? : Expr → Option CharSet
  | chars s => some s
  | _ => none

/-- The parts of a sequence. -/
def sequence? : Expr → Option (List Expr)
  | seq es => some es
  | _ => none

/-- The set that a choice comes to, if its branches are characters or are sets. -/
def merged? (es : List Expr) : Option CharSet :=
  ((es.mapM char?).map CharSet.ofList).or ((es.mapM set?).map CharSet.unions)

/-- A choice between branches, the first that matches being preferred. -/
def simpleChoice (es : List Expr) : Expr :=
  match es.flatMap branches with
  | [] => chars .empty
  | [e] => e
  | fs =>
    match merged? fs with
    | some s => ofSet s
    | none => alt fs

/-- The number of items that two lists have in common at their start. -/
def commonLength : List Expr → List Expr → Nat
  | e :: es, f :: fs => if e == f then commonLength es fs + 1 else 0
  | _, _ => 0

/-- The number of parts with which all of several sequences start, if all are sequences. -/
def sharedLength (es : List Expr) : Nat :=
  match es.mapM sequence? with
  | some (first :: rest) => rest.foldl (fun n fs => Nat.min n (commonLength first fs)) first.length
  | _ => 0

/-- A choice. What all branches start with stands before it. -/
def choice (es : List Expr) : Expr :=
  match simpleChoice es with
  | alt fs =>
    match sharedLength fs with
    | 0 => alt fs
    | n =>
      let rests := fs.map fun f => inSequence (f.parts.drop n)
      inSequence ((fs.headD empty).parts.take n ++ [simpleChoice rests])
  | e => e

end Expr

end Constituency.Regex
