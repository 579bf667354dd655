import Constituency.Text.Chars

/-!
# Tokens of bracketed notation

Parentheses are tokens by themselves; any other run of characters without blanks is an atom. Every
token remembers the line it starts on. No token spans two lines, since a line feed is blank.
-/

namespace Constituency.Bracket

/-- A parenthesis or an atom. -/
inductive Token where
  | opening
  | closing
  | atom (text : List Char)
deriving DecidableEq, Repr

/-- A token and the line it stands on, counted from 1. -/
structure Located where
  line : Nat
  token : Token
deriving DecidableEq, Repr

/-- Whether a character ends an atom. -/
def isDelimiter (c : Char) : Bool :=
  c == '(' || c == ')' || Text.isBlank c

/-- The token that an atom read so far makes, its last character first. -/
def pendingAtom (line : Nat) (pending : List Char) : List Located :=
  if pending.isEmpty then [] else [⟨line, .atom pending.reverse⟩]

/-- Reads tokens from a line on, after the characters of an atom that has begun. -/
def tokensFrom (line : Nat) (pending : List Char) : List Char → List Located
  | [] => pendingAtom line pending
  | c :: cs =>
    if isDelimiter c then
      let rest := tokensFrom (if c == '\n' then line + 1 else line) [] cs
      let rest := if c == '(' then ⟨line, .opening⟩ :: rest
        else if c == ')' then ⟨line, .closing⟩ :: rest
        else rest
      pendingAtom line pending ++ rest
    else tokensFrom line (c :: pending) cs

/-- The tokens of a text. -/
def tokens (cs : List Char) : List Located :=
  tokensFrom 1 [] cs

/-- The number of the last line of a text. -/
def lastLine (cs : List Char) : Nat :=
  cs.count '\n' + 1

end Constituency.Bracket
