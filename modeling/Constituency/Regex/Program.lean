import Constituency.Regex.Basic

/-!
# Programs of regular expressions

An expression is turned into instructions that refer to each other by number. The alternatives of
a branch are listed in the order of preference, so the first way through the program, tried in that
order, is the preferred match.

Instructions are laid out from the end of the expression to its start: each part is told which
instruction to go on with. A loop first reserves the number of its branch.
-/

namespace Constituency.Regex

/-- An instruction; it names those that can come next. -/
inductive Instr where
  | accept
  | char (set : CharSet) (next : Nat)
  | look (l : Look) (next : Nat)
  | branch (next : List Nat)
  /-- Records the position in a slot. -/
  | save (slot : Nat) (next : Nat)

/-- The instructions laid out so far. -/
abbrev Code := Array Instr

namespace Code

/-- Adds an instruction and gives its number. -/
def emit (code : Code) (i : Instr) : Code × Nat :=
  let n := code.size
  (code.push i, n)

/-- The order of the two ways out of a loop or an option. -/
def choice (greedy : Bool) (inside outside : Nat) : Instr :=
  .branch (if greedy then [inside, outside] else [outside, inside])

/-- Lays out `n` copies of a part, one after the other. -/
def copies (part : Code → Nat → Code × Nat) : Nat → Code → Nat → Code × Nat
  | 0, code, next => (code, next)
  | n + 1, code, next =>
    let (code, next) := copies part n code next
    part code next

/-- Lays out up to `n` copies of a part, each inside the option of the one before. -/
def options (part : Code → Nat → Code × Nat) (greedy : Bool) (exit : Nat) :
    Nat → Code → Code × Nat
  | 0, code => (code, exit)
  | n + 1, code =>
    let (code, inner) := options part greedy exit n code
    let (code, start) := part code inner
    code.emit (choice greedy start exit)

/-- Lays out a part that is repeated as often as wanted, and at least once. -/
def loop (part : Code → Nat → Code × Nat) (greedy : Bool) (code : Code) (exit : Nat) :
    Code × Nat × Nat :=
  let (code, back) := code.emit .accept
  let (code, start) := part code back
  (code.setIfInBounds back (choice greedy start exit), start, back)

end Code

/-- Lays out characters, one after the other. -/
def Code.text (code : Code) (cs : List Char) (next : Nat) : Code × Nat :=
  cs.foldr (fun c (code, next) => code.emit (.char (.single c) next)) (code, next)

/-- Lays out a repetition of a part, which is `proper` if it takes characters whenever it
matches. -/
def Code.repeated (part : Code → Nat → Code × Nat) (proper : Bool) (min : Nat) (max : Option Nat)
    (greedy : Bool) (code : Code) (next : Nat) : Code × Nat :=
  match max with
  | some m =>
    let (code, next) := code.options part greedy next (m - min)
    code.copies part min next
  | none =>
    let (code, start, back) := code.loop part greedy next
    match min with
    | 0 => if proper then (code, back) else code.emit (choice greedy start next)
    | n + 1 => code.copies part n start

mutual

/-- Lays out an expression in front of the instruction `next`, and gives the number of its first
instruction. -/
def Expr.layout : Expr → Code → Nat → Code × Nat
  | .empty, code, next => (code, next)
  | .text cs, code, next => code.text cs next
  | .chars set, code, next => code.emit (.char set next)
  | .look l, code, next => code.emit (.look l next)
  | .rep min max greedy e, code, next =>
    code.repeated (Expr.layout e) e.isProper min max greedy next
  | .group i e, code, next =>
    let (code, next) := code.emit (.save (2 * i + 1) next)
    let (code, next) := Expr.layout e code next
    code.emit (.save (2 * i) next)
  | .seq es, code, next => Expr.layoutSequence es code next
  | .alt es, code, next =>
    let (code, starts) := Expr.layoutBranches es code next
    code.emit (.branch starts)

/-- Lays out several expressions, one after the other. -/
def Expr.layoutSequence : List Expr → Code → Nat → Code × Nat
  | [], code, next => (code, next)
  | e :: es, code, next =>
    let (code, next) := Expr.layoutSequence es code next
    Expr.layout e code next

/-- Lays out the branches of a choice, and gives the numbers of their first instructions. -/
def Expr.layoutBranches : List Expr → Code → Nat → Code × List Nat
  | [], code, _ => (code, [])
  | e :: es, code, next =>
    let (code, starts) := Expr.layoutBranches es code next
    let (code, start) := Expr.layout e code next
    (code, start :: starts)

end

/-- Instructions, the number of the first of them, and the number of slots they save to. -/
structure Program where
  code : Code
  start : Nat
  slots : Nat

/-- The program of an expression; the whole match is group 0. -/
def Expr.program (e : Expr) (groups : Nat) : Program :=
  let (code, last) := Code.emit #[] .accept
  let (code, start) := (Expr.group 0 e).layout code last
  ⟨code, start, 2 * groups + 2⟩

end Constituency.Regex
