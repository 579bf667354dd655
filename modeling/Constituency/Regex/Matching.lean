import Constituency.Regex.Footprint.Expr
import Constituency.Regex.Parser
import Constituency.Regex.Program

/-!
# Matching regular expressions

A search follows a program through a text, trying the alternatives of a branch in order and the
possible starts from left to right. No instruction is tried twice at one position: what failed
once fails again. So the number of steps is bounded by the number of edges of the program times the
number of positions, and loops that take no characters end.
-/

namespace Constituency.Regex

/-- The characters before and after a position. -/
structure Around where
  before : Option Char
  after : Option Char
  /-- The characters one further out, for line ends of two characters. -/
  text : Array Char
  pos : Nat

/-- What stands around a position of a text. -/
def around (text : Array Char) (pos : Nat) : Around :=
  ⟨if pos = 0 then none else text[pos - 1]?, text[pos]?, text, pos⟩

/-- Whether a condition holds at a position. -/
def Look.holds (l : Look) (a : Around) : Bool :=
  let isWord (w : CharSet) (c : Option Char) : Bool := c.any w.contains
  match l with
  | textStart => a.before.isNone
  | textEnd => a.after.isNone
  | lineStart => a.before.isNone || a.before == some '\n'
  | lineEnd => a.after.isNone || a.after == some '\n'
  | lineStartAny =>
    a.before.isNone || a.before == some '\n' || (a.before == some '\r' && a.after != some '\n')
  | lineEndAny =>
    a.after.isNone || a.after == some '\r' || (a.after == some '\n' && a.before != some '\r')
  | wordBoundary w => isWord w a.before != isWord w a.after
  | noWordBoundary w => isWord w a.before == isWord w a.after
  | wordStart w => !isWord w a.before && isWord w a.after
  | wordEnd w => isWord w a.before && !isWord w a.after
  | wordStartHalf w => !isWord w a.before
  | wordEndHalf w => !isWord w a.after

/-- The recorded positions. -/
abbrev Slots := Array (Option Nat)

/-- An instruction to be tried at a position, with what has been recorded on the way to it. -/
structure Thread where
  instr : Nat
  pos : Nat
  slots : Slots

/-- The threads that follow from a thread, in the order of preference. -/
def Thread.next (text : Array Char) (t : Thread) : Instr → List Thread
  | .accept => []
  | .char set n =>
    match text[t.pos]? with
    | some c => if set.contains c then [{ t with instr := n, pos := t.pos + 1 }] else []
    | none => []
  | .look l n => if l.holds (around text t.pos) then [{ t with instr := n }] else []
  | .branch ns => ns.map fun n => { t with instr := n }
  | .save slot n => [{ t with instr := n, slots := t.slots.setIfInBounds slot (some t.pos) }]

/-- Follows threads, the first of the list first, until one accepts. -/
def Program.follow (p : Program) (text : Array Char) :
    Nat → Array Bool → List Thread → Option Slots
  | 0, _, _ => none
  | _ + 1, _, [] => none
  | fuel + 1, visited, t :: ts =>
    let place := t.instr * (text.size + 1) + t.pos
    if visited.getD place true then p.follow text fuel visited ts
    else
      match p.code[t.instr]? with
      | none => p.follow text fuel visited ts
      | some .accept => some t.slots
      | some i => p.follow text fuel (visited.setIfInBounds place true) (t.next text i ++ ts)

/-- The number of instructions that can come directly after an instruction. -/
def Instr.exits : Instr → Nat
  | .branch ns => ns.length
  | _ => 1

/-- The recorded positions of the leftmost match, preferred among those that start there. -/
def Program.search (p : Program) (text : Array Char) : Option Slots :=
  let positions := text.size + 1
  let fuel := (p.code.foldl (fun n i => n + i.exits) 1) * positions + 1
  let starts := (List.range positions).map fun pos =>
    ⟨p.start, pos, Array.replicate p.slots none⟩
  p.follow text fuel (Array.replicate (p.code.size * positions) false) starts

end Constituency.Regex

namespace Constituency

/-- A regular expression with the text it was read from. Two are the same if their texts are. -/
structure Regex where
  source : String
  program : Regex.Program

namespace Regex

instance : BEq Regex := ⟨fun a b => a.source == b.source⟩

/-- Reads a regular expression, unless its automata would be too large. -/
def compile? (source : String) : Option Regex := do
  let (e, groups) ← parse source.toList
  if e.fits then some ⟨source, e.program groups⟩ else none

/-- A match: the text searched, and where each group begins and ends in it. -/
structure Found where
  text : List Char
  slots : Slots

/-- The leftmost match in a text. -/
def find? (r : Regex) (text : List Char) : Option Found :=
  (r.program.search text.toArray).map (⟨text, ·⟩)

/-- Whether a text has a match. -/
def isMatch (r : Regex) (text : String) : Bool :=
  (r.find? text.toList).isSome

namespace Found

/-- The start and end of a group, if it took part in the match. -/
def span? (m : Found) (group : Nat) : Option (Nat × Nat) := do
  let first ← (m.slots[2 * group]?).join
  let last ← (m.slots[2 * group + 1]?).join
  return (first, last)

/-- The text of a group; nothing if it took no part in the match. -/
def groupText (m : Found) (group : Nat) : List Char :=
  match m.span? group with
  | some (first, last) => (m.text.drop first).take (last - first)
  | none => []

/-- The text with the whole match replaced. -/
def replace (m : Found) (replacement : List Char) : List Char :=
  match m.span? 0 with
  | some (first, last) => m.text.take first ++ replacement ++ m.text.drop last
  | none => replacement ++ m.text

end Found

end Regex

end Constituency
