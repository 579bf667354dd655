import Constituency.Grammar.Basic

/-!
# Recognizing texts

A text is parsed by running expressions on it. While it runs, the recognizer remembers what it
attempted at the furthest place where a rule failed, or where a rule succeeded that must not stand
there; from this a failure is explained.

Of the rules that fail at one place, the outermost is remembered, unless exactly one rule below it
is remembered at that place already: then that one says more. Nothing below a token is remembered.

No rule calls itself again before a character has been taken. So the size of the grammar bounds
how deep calls nest at one place, and that times the number of places bounds how deep they nest.
-/

namespace Constituency.Grammar

variable {R : Type}

/-- Whether an expression runs to be found or to be excluded. -/
inductive Ahead where
  | none
  | positive
  | negative
deriving DecidableEq, Repr

/-- How an expression is run. -/
structure Setting where
  kind : Kind
  ahead : Ahead

/-- What was attempted at the furthest place: rules that are missing there, and rules that must not
stand there. -/
structure Attempts (R : Type) where
  offset : Nat := 0
  expected : List R := []
  unexpected : List R := []

/-- The result of running an expression: where it ends and the parses of the rules it called. -/
abbrev Outcome (R : Type) := Attempts R × Option (Cursor × List (Parse R))

namespace Attempts

/-- The number of rules remembered at a place. -/
def countAt (a : Attempts R) (offset : Nat) : Nat :=
  if offset == a.offset then a.expected.length + a.unexpected.length else 0

/-- What is remembered after a rule that began at a place, given what was remembered before it. -/
def record (before after : Attempts R) (setting : Setting) (r : R) (offset : Nat) : Attempts R :=
  if setting.kind == .token || after.countAt offset == before.countAt offset + 1
      || offset < after.offset then after
  else
    let kept : Attempts R :=
      if offset == after.offset then
        if offset == before.offset then
          ⟨offset, after.expected.take before.expected.length,
            after.unexpected.take before.unexpected.length⟩
        else ⟨offset, [], []⟩
      else ⟨offset, [], []⟩
    if setting.ahead == .negative then { kept with unexpected := kept.unexpected ++ [r] }
    else { kept with expected := kept.expected ++ [r] }

end Attempts

/-- The direction of a look-ahead inside another. -/
def Ahead.excluded : Ahead → Ahead
  | negative => positive
  | _ => negative

/-- Takes a text if it is there. -/
def Cursor.takeText? (c : Cursor) (cs : List Char) : Option Cursor :=
  if cs.isPrefixOf c.rest then some ⟨c.rest.drop cs.length, c.offset + cs.length⟩ else none

/-- Takes one character, if it satisfies `p`. -/
def Cursor.takeChar? (c : Cursor) (p : Char → Bool) : Option Cursor :=
  match c.rest with
  | [] => none
  | x :: rest => if p x then some ⟨rest, c.offset + 1⟩ else none

/-- Repeats a step until it fails, at most `n` times; `found` holds what was parsed before. -/
def repeatStep (step : Cursor → Attempts R → Outcome R) :
    Nat → Cursor → Attempts R → List (Parse R) → Outcome R
  | 0, c, a, found => (a, some (c, found))
  | n + 1, c, a, found =>
    match step c a with
    | (a, none) => (a, some (c, found))
    | (a, some (c, parsed)) => repeatStep step n c a (found ++ parsed)

/-- Runs an expression at a place, with calls nested at most `fuel` deep. -/
def run (g : Grammar R) : Nat → Setting → Expr R → Cursor → Attempts R → Outcome R
  | 0, _, _, _, a => (a, none)
  | fuel + 1, setting, e, c, a =>
    let skip (c : Cursor) (a : Attempts R) : Cursor :=
      if setting.kind == .spaced then
        match run g fuel ⟨.token, setting.ahead⟩ g.space c a with
        | (_, some (c, _)) => c
        | (_, none) => c
      else c
    match e with
    | .text cs => (a, (c.takeText? cs).map (·, []))
    | .char p => (a, (c.takeChar? p).map (·, []))
    | .textStart => (a, if c.offset == 0 then some (c, []) else none)
    | .textEnd => (a, if c.rest.isEmpty then some (c, []) else none)
    | .seq x y =>
      match run g fuel setting x c a with
      | (a, none) => (a, none)
      | (a, some (c, first)) =>
        match run g fuel setting y (skip c a) a with
        | (a, none) => (a, none)
        | (a, some (c, second)) => (a, some (c, first ++ second))
    | .alt x y =>
      match run g fuel setting x c a with
      | (a, none) => run g fuel setting y c a
      | found => found
    | .opt x =>
      match run g fuel setting x c a with
      | (a, none) => (a, some (c, []))
      | found => found
    | .many x =>
      match run g fuel setting x c a with
      | (a, none) => (a, some (c, []))
      | (a, some (c, first)) =>
        repeatStep (fun c a => run g fuel setting x (skip c a) a) (c.rest.length + 1) c a first
    | .absent x =>
      match run g fuel { setting with ahead := setting.ahead.excluded } x c a with
      | (a, none) => (a, some (c, []))
      | (a, some _) => (a, none)
    | .rule r =>
      let outer : Setting := if g.kind r == .tight then { setting with kind := .tight } else setting
      let inner : Setting := if g.kind r == .token then { outer with kind := .token } else outer
      match run g fuel inner (g.body r) c a with
      | (a', none) =>
        (if outer.ahead == .negative then a' else a.record a' outer r c.offset, none)
      | (a', some (c', parts)) =>
        (if outer.ahead == .negative then a.record a' outer r c.offset else a',
          some (c', if outer.kind == .token then [] else [.node r c.offset (c.upTo c') parts]))

/-- Why a text does not follow a grammar: the furthest place, and the rules attempted there, in the
order of the grammar. -/
structure Failure (R : Type) where
  offset : Nat
  expected : List R
  unexpected : List R

/-- The parse of a whole text by a rule. -/
def parse [BEq R] (g : Grammar R) (r : R) (cs : List Char) : Except (Failure R) (Parse R) :=
  let fuel := g.size * (cs.length + 2)
  match run g fuel ⟨.spaced, .none⟩ (.rule r) ⟨cs, 0⟩ {} with
  | (_, some (_, [p])) => .ok p
  | (a, _) => .error ⟨a.offset, g.rules.filter a.expected.contains,
      g.rules.filter a.unexpected.contains⟩

/-- A list in words: `a`, `a or b`, `a, b, or c`. -/
def listing : List String → String
  | [] => ""
  | [a] => a
  | [a, b] => a ++ " or " ++ b
  | names =>
    ", ".intercalate names.dropLast ++ ", or " ++ names.getLastD ""

/-- A failure in words, under given names of the rules. -/
def Failure.message (f : Failure R) (name : R → String) : String :=
  let expected := listing (f.expected.map name)
  let unexpected := listing (f.unexpected.map name)
  match f.expected, f.unexpected with
  | [], [] => "unknown parsing error"
  | _, [] => "expected " ++ expected
  | [], _ => "unexpected " ++ unexpected
  | _, _ => "unexpected " ++ unexpected ++ "; expected " ++ expected

end Constituency.Grammar
