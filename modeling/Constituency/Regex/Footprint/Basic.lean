import Constituency.Regex.Basic

/-!
# The room that an automaton takes

A regular expression is refused if the byte automaton made from it, for reading forward or for
reading backward, would take more than ten mebibytes. The automaton itself is never made: what
counts is its number of states and the room of what the states refer to. A state takes 32 bytes,
each transition of a state that can have several takes 8 bytes more, each branch of a fork 4.

States are numbered as they are added, and a step that would exceed the limit ends the count. So the
count is short even for expressions whose automata would be enormous.
-/

namespace Constituency.Regex

/-- What has been added to an automaton so far. -/
structure Footprint where
  states : Nat
  /-- The bytes taken besides the states. -/
  extra : Nat
deriving DecidableEq, Repr

namespace Footprint

/-- The room taken, in bytes. -/
def bytes (f : Footprint) : Nat := 32 * f.states + f.extra

/-- The room that an automaton may take, in bytes. -/
def limit : Nat := 10 * 1024 * 1024

/-- The room of a transition of a state that has several. -/
def transition : Nat := 8

/-- The room of a branch of a fork. -/
def branch : Nat := 4

end Footprint

open Footprint

/-- A part of the construction of an automaton, which fails beyond the limit. -/
abbrev Build (α : Type) := StateT Footprint Option α

namespace Build

/-- The footprint, unless it is beyond the limit. -/
def within (f : Footprint) : Option Footprint :=
  if f.bytes ≤ limit then some f else none

/-- Adds a state that takes some bytes besides its own, and gives its number. -/
def state (extra : Nat) : Build Nat := fun f =>
  (within ⟨f.states + 1, f.extra + extra⟩).map fun g => (f.states, g)

/-- Adds branches to forks. -/
def fork (branches : Nat) : Build Unit := fun f =>
  (within { f with extra := f.extra + branches * branch }).map fun g => ((), g)

/-- Adds the states of some bytes in a row. -/
def row : Nat → Build Unit
  | 0 => pure ()
  | n + 1 => do
    let _ ← state 0
    row n

end Build

/-- How a part of an automaton ends: with a fork, to which all that comes next adds a branch, or
with another state. -/
inductive Ending where
  | plain
  | fork
deriving DecidableEq, Repr

/-- Lets something come next. -/
def Ending.link : Ending → Build Unit
  | plain => pure ()
  | fork => Build.fork 1

namespace Build

/-- A single state. -/
def single : Build Ending := do
  let _ ← state 0
  return .plain

/-- Lets parts follow one that ends in a given way. -/
def follow (ending : Ending) : List (Build Ending) → Build Ending
  | [] => pure ending
  | part :: parts => do
    let next ← part
    ending.link
    follow next parts

/-- Parts one after the other. -/
def chain : List (Build Ending) → Build Ending
  | [] => single
  | part :: parts => do
    let ending ← part
    follow ending parts

/-- Lets `n` copies of a part follow. -/
def copies (part : Build Ending) : Nat → Ending → Build Ending
  | 0, ending => pure ending
  | n + 1, ending => do
    let next ← part
    ending.link
    copies part n next

/-- Exactly `n` copies of a part. -/
def exactly (part : Build Ending) : Nat → Build Ending
  | 0 => single
  | n + 1 => do
    let ending ← part
    copies part n ending

/-- Lets up to `n` copies of a part follow. -/
def options (part : Build Ending) : Nat → Ending → Build Ending
  | 0, ending => pure ending
  | n + 1, ending => do
    let _ ← state 0
    let next ← part
    ending.link
    fork 2
    options part n next

/-- From `min` copies of a part to `extra` more. -/
def between (part : Build Ending) (min extra : Nat) : Build Ending := do
  let ending ← exactly part min
  let _ ← state 0
  let ending ← options part extra ending
  ending.link
  return .plain

/-- A part that may be left out. -/
def optional (part : Build Ending) : Build Ending := do
  let _ ← state 0
  let ending ← part
  let _ ← state 0
  fork 2
  ending.link
  return .plain

/-- Any number of copies of a part, which is `proper` if it takes characters whenever it matches. -/
def star (part : Build Ending) (proper : Bool) : Build Ending := do
  if proper then
    let _ ← state 0
    let ending ← part
    fork 1
    ending.link
    return .fork
  else
    let ending ← part
    row 3
    ending.link
    fork 4
    return .plain

/-- `n` copies of a part and one more that is repeated. -/
def plus (part : Build Ending) (n : Nat) : Build Ending := do
  let before ← if n = 0 then pure .plain else exactly part n
  let ending ← part
  let _ ← state 0
  before.link
  ending.link
  fork 1
  return .fork

/-- Adds the branches of a choice after its second one. -/
def moreBranches : List (Build Ending) → Build Ending
  | [] => pure .plain
  | part :: parts => do
    let ending ← part
    fork 1
    ending.link
    moreBranches parts

/-- A choice between parts. -/
def choice : List (Build Ending) → Build Ending
  | [] => single
  | [part] => part
  | first :: second :: parts => do
    let a ← first
    let b ← second
    row 2
    fork 2
    a.link
    b.link
    moreBranches parts

end Build

end Constituency.Regex
