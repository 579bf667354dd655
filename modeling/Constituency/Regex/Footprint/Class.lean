import Constituency.Regex.Footprint.Basic
import Constituency.Text.ByteRanges
import Std.Data.HashMap

/-!
# The room of character classes

A set of characters becomes states that read the bytes of its members. An ASCII set is one state
with a transition for each span. For other sets the two directions differ.

Reading forward, the sequences of byte ranges come in ascending order, and states with the same
transitions are shared: a state is finished as soon as no later sequence can pass through it, and it
is not added if one like it is known. Reading backward, each sequence begins a branch of its own,
and ends are shared: from the last byte range read to the first, a state is not added if one for the
same range and with the same next state is known.

In both cases what is known is kept in a table with a fixed number of slots, and a slot keeps only
what was put into it last. So not all that could be shared is.
-/

namespace Constituency.Regex

/-- A table that keeps at most one number in each slot, with the key it was stored under. -/
abbrev Memory (κ : Type) := Std.HashMap Nat (κ × Nat)

namespace Memory

/-- Takes one more number into a digest. -/
def mix (digest : UInt64) (n : Nat) : UInt64 :=
  (digest ^^^ n.toUInt64) * 1099511628211

/-- The digest of nothing. -/
def digest : UInt64 := 14695981039346656037

/-- The number stored under a key, if its slot has not been used for another key since. -/
def find? {κ : Type} [DecidableEq κ] (m : Memory κ) (slot : Nat) (key : κ) : Option Nat :=
  match m[slot]? with
  | some (k, n) => if k = key then some n else none
  | none => none

end Memory

/-- A transition: the byte ranges that lead to a state. -/
structure Edge where
  range : ByteRange
  target : Nat
deriving DecidableEq, Repr

namespace Build

/-! ## Forward -/

/-- The number of slots for finished states. -/
def stateSlots : Nat := 10000

/-- The slot of a state with some transitions. -/
def stateSlot (edges : Array Edge) : Nat :=
  let digest := edges.foldl
    (fun d e => Memory.mix (Memory.mix (Memory.mix d e.range.first) e.range.last) e.target)
    Memory.digest
  digest.toNat % stateSlots

/-- A state that more sequences may pass through. -/
structure OpenState where
  /-- Its finished transitions. -/
  edges : Array Edge
  /-- The range whose target is not finished. -/
  pending : Option ByteRange

/-- The transitions of a state, once the target of the last of them is known. -/
def OpenState.finish (s : OpenState) (target : Nat) : Array Edge :=
  match s.pending with
  | some r => s.edges.push ⟨r, target⟩
  | none => s.edges

/-- Adds a finished state, if none like it is known. -/
def addState (known : Memory (Array Edge)) (edges : Array Edge) :
    Build (Nat × Memory (Array Edge)) := do
  let slot := stateSlot edges
  match known.find? slot edges with
  | some n => return (n, known)
  | none =>
    let n ← state (edges.size * Footprint.transition)
    return (n, known.insert slot (edges, n))

/-- Finishes the states of a path, given from its end, until `keep` states are above the last one;
of that one the last transition is finished. -/
def finishBelow (keep : Nat) (known : Memory (Array Edge)) (target : Nat) :
    List OpenState → Build (List OpenState × Memory (Array Edge))
  | [] => return ([], known)
  | s :: path => do
    let edges := s.finish target
    if keep < path.length then
      let (n, known) ← addState known edges
      finishBelow keep known n path
    else return (⟨edges, none⟩ :: path, known)

/-- The number of byte ranges that a sequence shares with the path of the one before it. -/
def sharedRanges : List ByteRange → List OpenState → Nat
  | r :: rs, s :: ss => if s.pending = some r then sharedRanges rs ss + 1 else 0
  | _, _ => 0

/-- The path of a sequence: what is left of it goes on from the last state. -/
def extendPath (path : List OpenState) : List ByteRange → List OpenState
  | [] => path
  | r :: rs =>
    match path with
    | [] => []
    | s :: above => (rs.map fun r => ⟨#[], some r⟩).reverse ++ { s with pending := some r } :: above

/-- Adds the states of ascending sequences. -/
def addSequences (accepted : Nat) :
    List (List ByteRange) → List OpenState → Memory (Array Edge) →
    Build (List OpenState × Memory (Array Edge))
  | [], path, known => finishBelow 0 known accepted path
  | s :: ss, path, known => do
    let keep := sharedRanges s path.reverse
    let (path, known) ← finishBelow keep known accepted path
    addSequences accepted ss (extendPath path (s.drop keep)) known

/-- The states that read one of the characters of a set forward. -/
def classForward (set : CharSet) : Build Ending := do
  let accepted ← state 0
  let (path, known) ← addSequences accepted set.byteSequences [⟨#[], none⟩] ∅
  let _ ← addState known (path.head?.elim #[] (·.edges))
  return .plain

/-! ## Backward -/

/-- The number of slots for ends. -/
def endSlots : Nat := 1000

/-- The slot of a state for a byte range and what comes next. -/
def endSlot (e : Edge) : Nat :=
  let digest := Memory.mix Memory.digest e.target
  (Memory.mix (Memory.mix digest e.range.first) e.range.last).toNat % endSlots

/-- Adds the states of a sequence from its end, unless they are known. -/
def addEnd : List ByteRange → Nat → Memory Edge → Build (Memory Edge)
  | [], _, known => return known
  | r :: rs, target, known => do
    let edge : Edge := ⟨r, target⟩
    let slot := endSlot edge
    match known.find? slot edge with
    | some n => addEnd rs n known
    | none =>
      let n ← state 0
      addEnd rs n (known.insert slot (edge, n))

/-- Adds the branches of several sequences. -/
def addEnds (accepted : Nat) : List (List ByteRange) → Memory Edge → Build Unit
  | [], _ => return ()
  | s :: ss, known => do
    let known ← addEnd s accepted known
    fork 1
    addEnds accepted ss known

/-- The states that read one of the characters of a set backward. -/
def classBackward (set : CharSet) : Build Ending := do
  let _ ← state 0
  let accepted ← state 0
  addEnds accepted set.byteSequences ∅
  return .plain

/-- The states that read one of the characters of a set. -/
def charClass (d : Direction) (set : CharSet) : Build Ending := do
  if set.isAscii then
    let _ ← state 0
    let _ ← state (set.spans.length * Footprint.transition)
    return .plain
  else match d with
    | .forward => classForward set
    | .backward => classBackward set

end Build

end Constituency.Regex
