import Constituency.Bracket.Parser

/-!
# Reading many trees

A stream is read line by line. A tree may span lines and a line may hold several trees; whatever
stands outside parentheses, blanks apart, is an error, after which the rest of its line is ignored.
Items come line by line: first the error of the line, if it has one, then the trees that end on it.

A line whose bytes are not UTF-8 is reported and passed over; a tree that began before it goes on
after it.
-/

namespace Constituency.Bracket

/-- A line of a stream, or `none` for one that is not UTF-8. -/
abbrev Line := Option (List Char)

/-- A tree read from a stream, or what was found instead. -/
abbrev Item := Except ParseError Tree

/-- The state between two characters of a stream. -/
structure Reader where
  /-- The characters of the tree that has begun, last to first. -/
  pending : List Char := []
  /-- The line on which that tree began. -/
  pendingLine : Nat := 0
  /-- The number of parentheses still open. -/
  depth : Nat := 0

/-- What a line adds to a stream: complete groups with the lines on which they began, and at most
one error. -/
structure Scan where
  reader : Reader
  groups : List (Nat × List Char)
  error : Option ParseError

namespace Reader

/-- Takes one character, inside parentheses or an opening one; a closing parenthesis can complete
a group. -/
def push (r : Reader) (c : Char) : Reader × Option (Nat × List Char) :=
  let r := { r with pending := c :: r.pending }
  if c == '(' then ({ r with depth := r.depth + 1 }, none)
  else if c == ')' then
    if r.depth ≤ 1 then
      ({ r with depth := 0, pending := [] }, some (r.pendingLine, r.pending.reverse))
    else ({ r with depth := r.depth - 1 }, none)
  else (r, none)

/-- Scans the rest of a line. -/
def scan (line : Nat) (r : Reader) : List Char → Scan
  | [] =>
    let r := if r.depth > 0 then { r with pending := '\n' :: r.pending } else r
    ⟨r, [], none⟩
  | c :: cs =>
    if r.depth == 0 && c != '(' then
      if Text.isBlank c then r.scan line cs
      else ⟨{ r with pending := [], depth := 0 }, [], some ⟨line, .stray c⟩⟩
    else
      let r := if r.depth == 0 then { r with pendingLine := line } else r
      let (r, group) := r.push c
      let s := r.scan line cs
      { s with groups := group.toList ++ s.groups }

end Reader

/-- Reads a complete group that began on a given line. -/
def readGroup (group : Nat × List Char) : Item :=
  match parse group.2 with
  | .ok c => .ok (.ofConstituent c)
  | .error e => .error { e with line := group.1 + e.line - 1 }

/-- The items of the lines from number `n` on. -/
def itemsFrom (n : Nat) (r : Reader) : List Line → List Item
  | [] =>
    if (Text.trim r.pending).isEmpty then [] else [.error ⟨r.pendingLine, .endsInsideTree⟩]
  | none :: ls => .error ⟨n, .undecodable⟩ :: itemsFrom (n + 1) r ls
  | some l :: ls =>
    let s := r.scan n l
    (s.error.map Except.error).toList ++ s.groups.map readGroup ++ itemsFrom (n + 1) s.reader ls

/-- The items of a stream of lines. -/
def items (ls : List Line) : List Item :=
  itemsFrom 1 {} ls

/-- The items of a text. -/
def itemsOfText (text : String) : List Item :=
  items ((Text.lines text.toList).map some)

/-- The text that bytes encode. -/
def decode (bytes : List UInt8) : Line :=
  (String.fromUTF8? ⟨bytes.toArray⟩).map String.toList

/-- The lines of a stream of bytes. -/
def linesOfBytes (bytes : List UInt8) : List Line :=
  match (Text.fields (· == 10) bytes).reverse with
  | [] => []
  | last :: ended =>
    (ended.map fun l => (decode l).map Text.dropReturn).reverse
      ++ (if last.isEmpty then [] else [decode last])

/-- The items of a stream of bytes. -/
def itemsOfBytes (bytes : List UInt8) : List Item :=
  items (linesOfBytes bytes)

end Constituency.Bracket
