import Constituency.Regex.Footprint.Class

/-!
# The room of regular expressions

Every part of an expression has states of its own, once for each of its copies. A choice between
texts is an exception: texts that begin with the same bytes, or end with the same ones if they are
read backward, share states.
-/

namespace Constituency.Regex

namespace Build

/-! ## Choices between texts -/

/-- Divides texts at those that are empty; each part holds the texts between two empty ones. -/
def betweenEmpty (texts : List (List Nat)) : List (List (List Nat)) :=
  Text.fields List.isEmpty texts

/-- The rests of the texts that start with a byte. -/
def restsAfter (byte : Nat) (texts : List (List Nat)) : List (List Nat) :=
  texts.filterMap fun
    | b :: rest => if b = byte then some rest else none
    | [] => none

/-- The rests of texts, by the bytes that they start with. -/
def byFirst (texts : List (List Nat)) : List (List (List Nat)) :=
  (texts.filterMap List.head?).eraseDups.map fun b => restsAfter b texts

/-- The states that read one of several texts, the texts being no longer than `length`. A text that
ends before others do divides those that come after it from those before it. -/
def textTree : Nat → List (List Nat) → Build Unit
  | 0, _ => pure ()
  | length + 1, texts => do
    if texts.all List.isEmpty then return ()
    else
      let later := texts.dropWhile List.isEmpty
      let runs := betweenEmpty (if later.length < texts.length then [] :: later else texts)
      for run in runs do
        let targets := byFirst run
        for rests in targets do
          textTree length rests
        match targets.length with
        | 0 => pure ()
        | 1 => discard (state 0)
        | n => discard (state (n * Footprint.transition))
      let _ ← state 0
      fork ((runs.filter (!·.isEmpty)).length + (runs.length - 1))

/-- A choice between texts. -/
def texts (ts : List (List Nat)) : Build Ending := do
  let _ ← state 0
  textTree ((ts.map List.length).foldl Nat.max 0) ts
  return .plain

end Build

namespace Expr

/-- The text that is all of an expression. -/
def text? : Expr → Option (List Char)
  | text cs => some cs
  | _ => none

/-- The bytes of a text in the order in which they are read. -/
def bytes (d : Direction) (cs : List Char) : List Nat :=
  d.arrange (cs.flatMap fun c => Text.utf8Bytes c.toNat)

/-- A repetition of a part. -/
def buildRep (min : Nat) (max : Option Nat) (proper : Bool) (part : Build Ending) : Build Ending :=
  match max with
  | some m =>
    if min = 0 && m = 1 then .optional part
    else if min = m then .exactly part min
    else .between part min (m - min)
  | none =>
    match min with
    | 0 => .star part proper
    | n + 1 => .plus part n

/-- A part whose bounds are recorded, which is done in one direction only. -/
def buildGroup (d : Direction) (part : Build Ending) : Build Ending :=
  match d with
  | .backward => part
  | .forward => do
    let _ ← Build.state 0
    let ending ← part
    let _ ← Build.state 0
    ending.link
    return .plain

mutual

/-- The construction of the automaton of an expression. -/
def build (d : Direction) : Expr → Build Ending
  | empty => .single
  | text cs => do
    Build.row (Text.byteLength cs)
    return .plain
  | chars s => .charClass d s
  | look _ => .single
  | rep min max _ e => buildRep min max e.isProper (build d e)
  | group _ e => buildGroup d (build d e)
  | seq es => .chain (d.arrange (buildAll d es))
  | alt es =>
    match es.mapM text? with
    | some ts => .texts (ts.map (bytes d))
    | none => .choice (buildAll d es)

/-- The constructions of several expressions. -/
def buildAll (d : Direction) : List Expr → List (Build Ending)
  | [] => []
  | e :: es => build d e :: buildAll d es

end

/-- The construction of an automaton that looks for an expression. Unless the expression is
anchored, a loop over all bytes stands before it. -/
def buildSearch (d : Direction) (e : Expr) : Build Unit := do
  if e.isAnchored d then Build.row 1
  else
    Build.row 2
    let _ ← Build.state Footprint.transition
    Build.fork 1
  let ending ← buildGroup d (build d e)
  Build.row 1
  ending.link
  unless e.isAnchored d do Build.fork 1

/-- Whether the automata of an expression keep to the limit. -/
def fits (e : Expr) : Bool :=
  (buildSearch .forward e ⟨0, 0⟩).isSome && (buildSearch .backward e ⟨0, 0⟩).isSome

end Expr

end Constituency.Regex
