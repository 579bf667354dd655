import Constituency.Text.Chars

/-!
# Grammars

A grammar gives every rule an expression: texts and characters put together by sequence, ordered
choice, repetition, option and negative look-ahead. A choice takes the first alternative that
succeeds and never comes back to it; a repetition takes as much as it can.

Rules differ in how they treat what may stand between the parts of a sequence, such as blanks. In a
`spaced` rule it is skipped. Below a `tight` rule it is not. Below a `token` nothing is skipped, and
the rules that are called leave no trace in the parse.
-/

namespace Constituency.Grammar

/-- An expression over the rules `R`. -/
inductive Expr (R : Type) where
  | text (cs : List Char)
  | char (p : Char → Bool)
  | textStart
  | textEnd
  | rule (r : R)
  | seq (a b : Expr R)
  | alt (a b : Expr R)
  | many (e : Expr R)
  | opt (e : Expr R)
  | absent (e : Expr R)

/-- How a rule treats what may stand between its parts. -/
inductive Kind where
  | spaced
  | tight
  | token
deriving DecidableEq, Repr

namespace Expr

variable {R : Type}

instance : Append (Expr R) := ⟨seq⟩

instance : OrOp (Expr R) := ⟨alt⟩

/-- A text given as a string. -/
def lit (s : String) : Expr R := text s.toList

/-- One or more. -/
def oneOrMore (e : Expr R) : Expr R := e ++ many e

/-- One of several texts, the first that is there. -/
def oneOf : List String → Expr R
  | [] => char fun _ => false
  | [s] => lit s
  | s :: ss => lit s ||| oneOf ss

/-- One of several characters. -/
def oneChar (cs : List Char) : Expr R := char cs.contains

/-- Any character. -/
def anyChar : Expr R := char fun _ => true

/-- A line end. -/
def newline : Expr R := oneOf ["\n", "\r\n", "\r"]

/-- The number of expressions that an expression is made of. -/
def size : Expr R → Nat
  | seq a b => a.size + b.size + 1
  | alt a b => a.size + b.size + 1
  | many e => e.size + 1
  | opt e => e.size + 1
  | absent e => e.size + 1
  | _ => 1

end Expr

end Constituency.Grammar

namespace Constituency

/-- A grammar: its rules in order, what each of them stands for, and what may stand between the
parts of spaced rules. -/
structure Grammar (R : Type) where
  rules : List R
  kind : R → Grammar.Kind
  body : R → Grammar.Expr R
  space : Grammar.Expr R

namespace Grammar

variable {R : Type}

/-- The number of expressions in a grammar. -/
def size (g : Grammar R) : Nat :=
  g.rules.foldl (fun n r => n + (g.body r).size) (g.space.size + 1)

/-- What a rule was found to stand for: where it starts, the text it covers, and what the rules
called from it cover. -/
inductive Parse (R : Type) where
  | node (rule : R) (start : Nat) (text : List Char) (parts : List (Parse R))

namespace Parse

/-- The rule at the root of a parse. -/
def rule : Parse R → R
  | node r _ _ _ => r

/-- The number of characters before a parse. -/
def start : Parse R → Nat
  | node _ i _ _ => i

/-- The text that a parse covers. -/
def text : Parse R → List Char
  | node _ _ cs _ => cs

/-- The parses of the rules called. -/
def parts : Parse R → List (Parse R)
  | node _ _ _ ps => ps

end Parse

/-- A place in a text: what is left of it, and the number of characters before. -/
structure Cursor where
  rest : List Char
  offset : Nat
deriving DecidableEq, Repr

/-- The text between two places. -/
def Cursor.upTo (c c' : Cursor) : List Char :=
  c.rest.take (c'.offset - c.offset)

end Constituency.Grammar
