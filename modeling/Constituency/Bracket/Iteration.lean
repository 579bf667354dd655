import Constituency.Bracket.Stream

/-!
# Reading items one by one

A stream of trees need not be read to its end. It is read on by lines, no further than the next item
demands. The groups of a line are queued; as long as there are any, no further line is read.
-/

namespace Constituency.Bracket

/-- A stream of trees that has been read up to some line. -/
structure TreeStream where
  /-- The lines that have not been read. -/
  lines : List Line
  /-- How many lines have been asked for. -/
  line : Nat := 0
  reader : Reader := {}
  /-- The groups that have been read but not been given. -/
  ready : List (Nat × List Char) := []

namespace TreeStream

/-- Reads lines until there is an item or there are no more lines. -/
def advance (line : Nat) (r : Reader) : List Line → Option Item × TreeStream
  | [] =>
    if (Text.trim r.pending).isEmpty then (none, ⟨[], line + 1, r, []⟩)
    else (some (.error ⟨r.pendingLine, .endsInsideTree⟩),
      ⟨[], line + 1, { r with pending := [], depth := 0 }, []⟩)
  | none :: ls => (some (.error ⟨line + 1, .undecodable⟩), ⟨ls, line + 1, r, []⟩)
  | some l :: ls =>
    let s := r.scan (line + 1) l
    match s.error, s.groups with
    | some e, gs => (some (.error e), ⟨ls, line + 1, s.reader, gs⟩)
    | none, g :: gs => (some (readGroup g), ⟨ls, line + 1, s.reader, gs⟩)
    | none, [] => advance (line + 1) s.reader ls

/-- The next item, if there is one, and the stream behind it. -/
def next (s : TreeStream) : Option Item × TreeStream :=
  match s.ready with
  | g :: gs => (some (readGroup g), { s with ready := gs })
  | [] => advance s.line s.reader s.lines

/-- A stream of lines before anything has been read. -/
def start (ls : List Line) : TreeStream :=
  { lines := ls }

/-- The stream after some more items have been asked for. -/
def after (s : TreeStream) : Nat → TreeStream
  | 0 => s
  | k + 1 => (s.after k).next.2

end TreeStream

namespace Reader

/-- Takes one character as `push` does, except that a closing parenthesis has to have an open one:
without any the number of open parentheses would fall below zero. -/
def push? (r : Reader) (c : Char) : Option (Reader × Option (Nat × List Char)) :=
  let r := { r with pending := c :: r.pending }
  if c == '(' then some ({ r with depth := r.depth + 1 }, none)
  else if c == ')' then
    match r.depth with
    | 0 => none
    | depth + 1 =>
      if depth == 0 then
        some ({ r with depth := 0, pending := [] }, some (r.pendingLine, r.pending.reverse))
      else some ({ r with depth := depth }, none)
  else some (r, none)

/-- Scans the rest of a line as `scan` does, with every parenthesis checked. -/
def scan? (line : Nat) (r : Reader) : List Char → Option Scan
  | [] => some ⟨if r.depth > 0 then { r with pending := '\n' :: r.pending } else r, [], none⟩
  | c :: cs =>
    if r.depth == 0 && c != '(' then
      if Text.isBlank c then r.scan? line cs
      else some ⟨{ r with pending := [], depth := 0 }, [], some ⟨line, .stray c⟩⟩
    else do
      let (r, group) ← (if r.depth == 0 then { r with pendingLine := line } else r).push? c
      let s ← r.scan? line cs
      return { s with groups := group.toList ++ s.groups }

end Reader

end Constituency.Bracket
